import FormulaCompiler.Proofs.Fragment.Rendering
import FormulaCompiler.Proofs.Operator.Route

/-!
# Rendering in two phases

Rendering threads fields, locals and two counters through one recursion. Here it is taken apart: a
walk lists the nodes that are met, from left to right and once for each occurrence, the walk alone
says which fields and locals are added, and a printer without state writes the text when the names
are known. The printer works on texts and types and builds no terms. Only stores whose cached nodes
are variables read in place are covered.
-/

namespace FormulaCompiler

/-- The constant that the emission keeps in a field. -/
def Emission.kept? : Emission → Option (Value × Ty)
  | .hoisted v ty => some (v, ty)
  | _ => none

/-- The constants that the nodes keep in fields. -/
def keptOf (ns : List Node) : List (Value × Ty) := ns.filterMap (·.emission.kept?)

/-- The variables that the nodes read through locals. -/
def cachedOf (ns : List Node) : List String :=
  ns.filterMap fun n => if n.emission.isCached then some n.label else none

/-- The texts that are not known yet, in the order of their first occurrences. -/
def newTexts (known texts : List String) : List String :=
  (texts.filter fun t => decide (t ∉ known)).eraseDups

/-- Fields for constants, numbered from `k` on. -/
def fieldRow (stem : String) (k : Nat) (kept : List (Value × Ty)) : List Field :=
  kept.mapIdx fun i c => ⟨numbered stem (k + i), c.1, c.2⟩

/-- Locals that keep the reads of variables, numbered from `k` on. -/
def localRow (ctx : Context) (stem : String) (k : Nat) (texts : List String) :
    List (CachedRead LocalRead) :=
  texts.mapIdx fun j text => ⟨text, numbered stem (k + j), .of ctx text⟩

theorem keptOf_append (ns ms : List Node) : keptOf (ns ++ ms) = keptOf ns ++ keptOf ms :=
  List.filterMap_append

theorem cachedOf_append (ns ms : List Node) : cachedOf (ns ++ ms) = cachedOf ns ++ cachedOf ms :=
  List.filterMap_append

theorem fieldRow_append (stem : String) (k : Nat) (as bs : List (Value × Ty)) :
    fieldRow stem k (as ++ bs) = fieldRow stem k as ++ fieldRow stem (k + as.length) bs := by
  simp [fieldRow, List.mapIdx_append, Nat.add_comm, Nat.add_left_comm]

theorem localRow_append (ctx : Context) (stem : String) (k : Nat) (as bs : List String) :
    localRow ctx stem k (as ++ bs) =
      localRow ctx stem k as ++ localRow ctx stem (k + as.length) bs := by
  simp [localRow, List.mapIdx_append, Nat.add_comm, Nat.add_left_comm]

theorem map_name_fieldRow (stem : String) (k : Nat) (kept : List (Value × Ty)) :
    (fieldRow stem k kept).map (·.name) = namesBetween stem k (k + kept.length) := by
  rw [namesBetween, Nat.add_sub_cancel_left]
  apply List.ext_getElem?
  intro i
  by_cases hi : i < kept.length <;> simp [fieldRow, hi]

theorem map_text_localRow (ctx : Context) (stem : String) (k : Nat) (texts : List String) :
    (localRow ctx stem k texts).map (·.text) = texts := by
  apply List.ext_getElem?
  intro i
  simp [localRow, Function.comp_def]

/-- What the first texts add is known to the second ones. -/
theorem newTexts_append (known as bs : List String) :
    newTexts known (as ++ bs) = newTexts known as ++ newTexts (known ++ newTexts known as) bs := by
  unfold newTexts
  rw [List.filter_append, List.eraseDups_append, List.removeAll, List.filter_filter]
  congr 2
  apply List.filter_congr
  intro b _
  by_cases hk : b ∈ known <;> by_cases ha : b ∈ as <;> simp [hk, ha]

/-- The text that reads a variable. -/
def readText (ctx : Context) (name : String) : String :=
  let getter := match ctx.typeOf name with
    | .int => "get_int"
    | .float => "get_float"
    | .bool => "get_bool"
    | .text => "get_str"
    | .null | .dynamic => "get_value"
  "ctx." ++ getter ++ "(" ++ Text.Quoted.quote name ++ ")"

/-- The type in which an operator takes two numbers. A division takes floats, and so does any
operator as soon as one of them is a float. -/
def BinaryOp.meeting? (op : BinaryOp) (l r : Ty) : Option String :=
  if l = .int ∧ r = .int ∧ op ≠ .div then some "i64"
  else if l.isNumeric ∧ r.isNumeric then some "f64"
  else none

/-- A text that is cast. -/
def castText (text type : String) : String := "(" ++ text ++ " as " ++ type ++ ")"

/-- An operator between two texts: numbers are cast, and a sum of anything else joins texts. -/
def BinaryOp.between (op : BinaryOp) (left : String) (l : Ty) (right : String) (r : Ty) : String :=
  match op.meeting? l r with
  | some type => "(" ++ castText left type ++ " " ++ op.symbol ++ " " ++ castText right type ++ ")"
  | none =>
      if op = .add then "format!(\"\x7b\x7d\x7b\x7d\", " ++ left ++ ", " ++ right ++ ")"
      else "(" ++ left ++ " " ++ op.symbol ++ " " ++ right ++ ")"

/-- An operator before a text, with the type of the result: a number is cast before it is negated. -/
def UnaryOp.before (op : UnaryOp) (operand : String) (ty : Ty) : String :=
  match op with
  | .neg => "(-" ++ castText operand (if ty = .int then "i64" else "f64") ++ ")"
  | .not => "(!" ++ operand ++ ")"

namespace RenderState

/-- The second state has what a walk over the nodes adds to the first. -/
structure Adds (ctx : Context) (st : RenderState) (ns : List Node) (st' : RenderState) : Prop where
  fieldStem : st'.fields.stem = st.fields.stem
  fields : st'.fields.toList =
    st.fields.toList ++ fieldRow st.fields.stem st.counter.value (keptOf ns)
  counter : st'.counter.value = st.counter.value + (keptOf ns).length
  localStem : st'.locals.stem = st.locals.stem
  locals : st'.locals.toList = st.locals.toList ++ localRow ctx st.locals.stem
    st.locals.names.value (newTexts (st.locals.toList.map (·.text)) (cachedOf ns))
  names : st'.locals.names.value = st.locals.names.value +
    (newTexts (st.locals.toList.map (·.text)) (cachedOf ns)).length

namespace Adds

variable {ctx : Context} {st st₁ st₂ : RenderState} {ns ms : List Node}

/-- Nodes that keep no constant and cache nothing new add nothing. -/
theorem refl (hk : keptOf ns = [])
    (hc : newTexts (st.locals.toList.map (·.text)) (cachedOf ns) = []) : st.Adds ctx ns st := by
  constructor <;> simp [hk, hc, fieldRow, localRow]

theorem append (h : st.Adds ctx ns st₁) (h' : st₁.Adds ctx ms st₂) :
    st.Adds ctx (ns ++ ms) st₂ := by
  have hknown : st₁.locals.toList.map (·.text) = st.locals.toList.map (·.text) ++
      newTexts (st.locals.toList.map (·.text)) (cachedOf ns) := by
    rw [h.locals, List.map_append, map_text_localRow]
  constructor
  · rw [h'.fieldStem, h.fieldStem]
  · rw [h'.fields, h.fields, h.fieldStem, h.counter, keptOf_append, fieldRow_append,
      List.append_assoc]
  · rw [h'.counter, h.counter, keptOf_append, List.length_append, Nat.add_assoc]
  · rw [h'.localStem, h.localStem]
  · rw [h'.locals, hknown, h.locals, h.localStem, h.names, cachedOf_append, newTexts_append,
      localRow_append, List.append_assoc]
  · rw [h'.names, hknown, h.names, cachedOf_append, newTexts_append, List.length_append,
      Nat.add_assoc]

end Adds
end RenderState

namespace Store

/-- The nodes met from an id, from left to right and each before its children. What is below a
constant in a field is not met. -/
def walkWithin (s : Store) : Nat → NodeId → List Node
  | 0, _ => []
  | depth + 1, id =>
      match s.get? id with
      | none => []
      | some n =>
          n :: if n.emission.kept?.isSome then [] else n.children.flatMap (s.walkWithin depth)

/-- The nodes met from an id. -/
def walk (s : Store) (id : NodeId) : List Node := s.walkWithin s.depth id

/-- The text and the type of a node when fields are numbered from `k` on in the order of the walk and
the names of locals are given. -/
def printWithin (s : Store) (ctx : Context) (stem : String) (localName : String → Option String) :
    Nat → Nat → NodeId → Option (String × Ty)
  | 0, _, _ => none
  | depth + 1, k, id =>
      match s.inspect id with
      | .error _ => none
      | .ok (n, shape) =>
          match n.emission, shape with
          | .hoisted _ ty, _ => some ("Self::" ++ numbered stem k, ty)
          | .cached _, _ => (localName n.label).map fun held => (held, ctx.typeOf n.label)
          | .inPlace, .const v => some (v.literal, v.ty)
          | .inPlace, .var => some (readText ctx n.label, ctx.typeOf n.label)
          | .inPlace, .unary op x => do
              let (operand, operandTy) ← s.printWithin ctx stem localName depth k x
              let ty ← op.resultType? operandTy
              some (op.before operand ty, ty)
          | .inPlace, .binary op l r => do
              let (left, leftTy) ← s.printWithin ctx stem localName depth k l
              -- The fields of the left operand come first.
              let next := k + (keptOf (s.walkWithin depth l)).length
              let (right, rightTy) ← s.printWithin ctx stem localName depth next r
              let ty ← op.resultType? leftTy rightTy
              some (op.between left leftTy right rightTy, ty)

/-- The text and the type of a node when fields are numbered from `k` on and locals have their
names. -/
def print (s : Store) (ctx : Context) (stem : String) (localName : String → Option String)
    (k : Nat) (id : NodeId) : Option (String × Ty) :=
  s.printWithin ctx stem localName s.depth k id

section Walk

variable {s : Store} {id : NodeId} {n : Node} {shape : Shape}

end Walk
end Store

namespace RenderM

variable {s : Store} {ctx : Context} {st : RenderState} {n : Node}

end RenderM

namespace Store

open RenderM

variable {s : Store} {ctx : Context}

end Store

end FormulaCompiler
