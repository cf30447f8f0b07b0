import FormulaCompiler.Counter
import FormulaCompiler.Target.Code

/-!
# Fields of a unit

Constants that a unit keeps in fields. Rendering queues them in the order in which it meets them,
and a unit takes them oldest first. Each gets a number of the counter that the queue draws on.
-/

namespace FormulaCompiler

/-- A constant kept in a field. -/
structure Field where
  name : String
  value : Value
  ty : Ty
  deriving DecidableEq, Repr

/-- The field's declaration. -/
def Field.declaration (f : Field) : String :=
  "const " ++ f.name ++ ": " ++ f.ty.fieldType.text ++ " = " ++ f.value.literal ++ ";"

/-- Fields waiting for their unit, oldest first, named with one stem. -/
structure FieldQueue where
  stem : String
  entries : Array Field := #[]
  deriving DecidableEq, Repr, Inhabited

namespace FieldQueue

def toList (q : FieldQueue) : List Field := q.entries.toList

def size (q : FieldQueue) : Nat := q.entries.size

def isEmpty (q : FieldQueue) : Bool := q.entries.isEmpty

/-- Queues a field. -/
def add (q : FieldQueue) (f : Field) : FieldQueue := { q with entries := q.entries.push f }

/-- Queues a constant under a name of its own, if there is a number for it. -/
def push (q : FieldQueue) (c : Counter) (value : Value) (ty : Ty) :
    EStateM.Result Clash (FieldQueue × Counter) String :=
  match c.next with
  | .ok n c => .ok (numbered q.stem n) (q.add ⟨numbered q.stem n, value, ty⟩, c)
  | .error cause c => .error cause (q, c)

/-- Takes the oldest field. -/
def pop? (q : FieldQueue) : Option (Field × FieldQueue) :=
  match q.toList with
  | [] => none
  | f :: rest => some (f, { q with entries := rest.toArray })

/-- Takes all fields. -/
def drain (q : FieldQueue) : List Field × FieldQueue := (q.toList, { q with entries := #[] })

@[simp] theorem toList_add (q : FieldQueue) (f : Field) : (q.add f).toList = q.toList ++ [f] := by
  simp [add, toList]

@[simp] theorem stem_add (q : FieldQueue) (f : Field) : (q.add f).stem = q.stem := rfl

theorem push_of_lt {c : Counter} (h : c.value < Counter.last) (q : FieldQueue) (value : Value)
    (ty : Ty) :
    q.push c value ty = .ok (numbered q.stem c.value)
      (q.add ⟨numbered q.stem c.value, value, ty⟩, ⟨c.value + 1⟩) := by
  rw [push, Counter.next_of_lt h]

theorem push_of_le {c : Counter} (h : Counter.last ≤ c.value) (q : FieldQueue) (value : Value)
    (ty : Ty) :
    q.push c value ty = .error .numbersExhausted (q, c) := by
  rw [push, Counter.next_of_le h]

theorem toList_of_pop? {q q' : FieldQueue} {f : Field} (h : q.pop? = some (f, q')) :
    q.toList = f :: q'.toList ∧ q'.stem = q.stem := by
  unfold pop? at h
  split at h <;> simp at h
  rename_i rest hl
  obtain ⟨rfl, rfl⟩ := h
  exact ⟨hl, rfl⟩

@[simp] theorem drain_fst (q : FieldQueue) : q.drain.1 = q.toList := rfl

@[simp] theorem toList_drain (q : FieldQueue) : q.drain.2.toList = [] := rfl

end FieldQueue
end FormulaCompiler
