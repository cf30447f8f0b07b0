import FormulaCompiler.Value

/-!
# Variables and their values

A context answers what a variable is bound to; formulas are evaluated, typed and compiled against
one. Bindings are a context that can be changed: a list of names, each at most once.
-/

namespace FormulaCompiler

/-- What variables are bound to. -/
structure Context where
  get? : String → Option Value

namespace Context

/-- The variable's value, null when it is unbound. -/
def getValue (ctx : Context) (name : String) : Value := (ctx.get? name).getD .null

def getInt (ctx : Context) (name : String) : Int64 := (ctx.getValue name).toInt64

def getFloat (ctx : Context) (name : String) : Float := (ctx.getValue name).toFloat

def getBool (ctx : Context) (name : String) : Bool := (ctx.getValue name).isTrue

/-- The variable as a text: null is empty, other values show as they display. -/
def getText (ctx : Context) (name : String) : String :=
  match ctx.getValue name with
  | .null => ""
  | v => v.display

/-- The static type of a variable. What is unbound or null may be anything at run time. -/
def typeOf (ctx : Context) (name : String) : Ty :=
  match ctx.get? name with
  | none | some .null => .dynamic
  | some v => v.ty

theorem typeOf_ne_null (ctx : Context) (name : String) : ctx.typeOf name ≠ .null := by
  unfold typeOf
  split <;> simp
  rename_i v hv _
  cases v <;> simp_all [Value.ty]

end Context

/-- Names with their values, in the order in which they were first bound. -/
structure Bindings where
  entries : List (String × Value) := []
  deriving Repr, Inhabited

namespace Bindings

def empty : Bindings := {}

/-- The value of the entry with this name. -/
def lookup (name : String) : List (String × Value) → Option Value
  | [] => none
  | (n, v) :: rest => if n = name then some v else lookup name rest

/-- Gives the entry with this name the value, or adds one at the end. -/
def put (name : String) (value : Value) : List (String × Value) → List (String × Value)
  | [] => [(name, value)]
  | (n, v) :: rest => if n = name then (n, value) :: rest else (n, v) :: put name value rest

def get? (b : Bindings) (name : String) : Option Value := lookup name b.entries

def insert (b : Bindings) (name : String) (value : Value) : Bindings := ⟨put name value b.entries⟩

def erase (b : Bindings) (name : String) : Bindings := ⟨b.entries.filter fun e => e.1 ≠ name⟩

def size (b : Bindings) : Nat := b.entries.length

def isEmpty (b : Bindings) : Bool := b.entries.isEmpty

/-- Binds the pairs in order, so that the last one for a name counts. -/
def ofList (pairs : List (String × Value)) : Bindings :=
  pairs.foldl (fun b p => b.insert p.1 p.2) empty

/-- The context that looks variables up in the bindings. -/
def context (b : Bindings) : Context := ⟨b.get?⟩

@[simp] theorem get?_empty (name : String) : empty.get? name = none := rfl

theorem lookup_put (name other : String) (value : Value) (entries : List (String × Value)) :
    lookup other (put name value entries) = if name = other then some value
      else lookup other entries := by
  induction entries with
  | nil => rfl
  | cons e rest ih =>
      obtain ⟨n, v⟩ := e
      by_cases hn : n = name
      · subst hn
        simp only [put, lookup, if_true]
        split <;> rfl
      · simp only [put, lookup, if_neg hn, ih]
        split <;> rename_i h
        · subst h
          simp [Ne.symm hn]
        · rfl

@[simp] theorem get?_insert (b : Bindings) (name other : String) (value : Value) :
    (b.insert name value).get? other = if name = other then some value else b.get? other :=
  lookup_put name other value b.entries

@[simp] theorem get?_erase (b : Bindings) (name other : String) :
    (b.erase name).get? other = if name = other then none else b.get? other := by
  obtain ⟨entries⟩ := b
  simp only [get?, erase]
  induction entries with
  | nil => simp [lookup]
  | cons e rest ih =>
      obtain ⟨n, v⟩ := e
      by_cases hn : n = name
      · subst hn
        simp only [ne_eq, not_true_eq_false, decide_false, Bool.false_eq_true,
          not_false_eq_true, List.filter_cons_of_neg, ih, lookup]
        split <;> rfl
      · simp only [ne_eq, hn, not_false_eq_true, decide_true, List.filter_cons_of_pos, lookup, ih]
        split <;> rename_i h
        · subst h
          simp [Ne.symm hn]
        · rfl

end Bindings
end FormulaCompiler
