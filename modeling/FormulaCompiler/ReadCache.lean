import FormulaCompiler.BuildError
import FormulaCompiler.Counter

/-!
# Cached reads

What a unit reads once and keeps in locals. An entry ties the text of a read to the name of its
local; neither may occur twice. Reads are looked up through an index by text, which is kept in step
with the list of reads. Clearing the cache for the next unit keeps the numbering, so that names of
locals never come back.
-/

namespace FormulaCompiler

/-- A read kept in a local, with what is needed to declare it. -/
structure CachedRead (α : Type) where
  text : String
  name : String
  body : α
  deriving DecidableEq, Repr

/-- Reads in the order in which they were first met, with an index of their texts. -/
structure ReadTable (α : Type) where
  /-- At which place the read of a text stands, the newest first. -/
  index : List (String × Nat) := []
  entries : Array (CachedRead α) := #[]
  deriving DecidableEq, Repr, Inhabited

namespace ReadTable

variable {α : Type}

/-- The place of a text's read. -/
def position? (t : ReadTable α) (text : String) : Option Nat := t.index.lookup text

/-- Adds a read to the list and to the index. -/
def add (t : ReadTable α) (r : CachedRead α) : ReadTable α :=
  ⟨(r.text, t.entries.size) :: t.index, t.entries.push r⟩

/-- The index lists the reads with their places, and no text has two of them. -/
def InStep (t : ReadTable α) : Prop :=
  t.index = (t.entries.toList.zipIdx.map fun (r, i) => (r.text, i)).reverse ∧
    (t.entries.toList.map (·.text)).Nodup

instance (t : ReadTable α) : Decidable t.InStep := inferInstanceAs (Decidable (_ ∧ _))

theorem inStep_empty : ({} : ReadTable α).InStep := ⟨rfl, List.nodup_nil⟩

theorem InStep.mem_index {t : ReadTable α} (h : t.InStep) {text : String} {i : Nat} :
    (text, i) ∈ t.index ↔ ∃ r, t.entries.toList[i]? = some r ∧ r.text = text := by
  rw [h.1, List.mem_reverse, List.mem_map]
  constructor
  · intro hmem
    obtain ⟨⟨r, j⟩, hr, heq⟩ := hmem
    obtain ⟨rfl, rfl⟩ := Prod.mk.inj heq
    exact ⟨r, List.mem_zipIdx_iff_getElem?.mp hr, rfl⟩
  · intro hread
    obtain ⟨r, hr, rfl⟩ := hread
    exact ⟨(r, i), List.mem_zipIdx_iff_getElem?.mpr hr, rfl⟩

/-- A text that no read has stands nowhere in the index. -/
theorem InStep.position?_eq_none_iff {t : ReadTable α} (h : t.InStep) {text : String} :
    t.position? text = none ↔ ∀ r ∈ t.entries.toList, r.text ≠ text := by
  rw [position?, List.lookup_eq_none_iff]
  constructor
  · intro hall r hr htext
    obtain ⟨i, hi⟩ := List.mem_iff_getElem?.mp hr
    have hne := hall _ (h.mem_index.mpr ⟨r, hi, htext⟩)
    simp at hne
  · intro hall p hp
    obtain ⟨r, hr, htext⟩ := h.mem_index.mp hp
    have hne := hall r (List.mem_of_getElem? hr)
    rw [htext] at hne
    simpa using Ne.symm hne

/-- The place that the index gives for a text is the place of the read with that text. -/
theorem InStep.position?_eq_some_iff {t : ReadTable α} (h : t.InStep) {text : String} {i : Nat} :
    t.position? text = some i ↔ ∃ r, t.entries.toList[i]? = some r ∧ r.text = text := by
  have hsound : ∀ {j}, t.position? text = some j →
      ∃ r, t.entries.toList[j]? = some r ∧ r.text = text := by
    intro j hj
    obtain ⟨before, after, hindex, -⟩ := List.lookup_eq_some_iff.mp hj
    exact h.mem_index.mp (by rw [hindex]; simp)
  constructor
  · exact hsound
  · intro hread
    obtain ⟨r, hr, htext⟩ := hread
    cases hplace : t.position? text with
    | none => exact absurd htext (h.position?_eq_none_iff.mp hplace r (List.mem_of_getElem? hr))
    | some j =>
        -- Both places hold a read with this text, and texts do not repeat.
        obtain ⟨r', hr', htext'⟩ := hsound hplace
        have hi : (t.entries.toList.map (·.text))[i]? = some text := by simp [hr, htext]
        have hj : (t.entries.toList.map (·.text))[j]? = some text := by simp [hr', htext']
        have hlt := (List.getElem?_eq_some_iff.mp hj).1
        rw [(List.getElem?_inj hlt h.2).mp (hj.trans hi.symm)]

/-- Adding the read of a new text keeps a table in step. -/
theorem InStep.add {t : ReadTable α} (h : t.InStep) {r : CachedRead α}
    (hnew : t.position? r.text = none) : (t.add r).InStep := by
  constructor
  · show (r.text, t.entries.size) :: t.index = _
    rw [h.1]
    simp [ReadTable.add, List.zipIdx_append]
  · have hfree := h.position?_eq_none_iff.mp hnew
    simp only [ReadTable.add, Array.toList_push, List.map_append, List.map_cons, List.map_nil]
    refine List.nodup_append.mpr ⟨h.2, by simp, ?_⟩
    intro text htext other hother
    obtain ⟨r', hr', rfl⟩ := List.mem_map.mp htext
    rw [List.mem_singleton.mp hother]
    exact hfree r' hr'

end ReadTable

/-- The reads of the unit at hand, and the numbers for the names of their locals. -/
structure ReadCache (α : Type) where
  stem : String
  names : Counter := {}
  table : ReadTable α := {}
  inStep : table.InStep := by exact ReadTable.inStep_empty
  deriving DecidableEq, Repr

namespace ReadCache

variable {α : Type}

instance : Inhabited (ReadCache α) := ⟨{ stem := "" }⟩

def toList (c : ReadCache α) : List (CachedRead α) := c.table.entries.toList

def size (c : ReadCache α) : Nat := c.table.entries.size

def isEmpty (c : ReadCache α) : Bool := c.table.entries.isEmpty

/-- The local that holds a read. -/
def get? (c : ReadCache α) (text : String) : Option String := do
  let i ← c.table.position? text
  let r ← c.table.entries[i]?
  pure r.name

/-- A name for a local that no other local has had, if there is a number for it. -/
def freshName (c : ReadCache α) : EStateM.Result Clash (ReadCache α) String :=
  match c.names.next with
  | .ok n names => .ok (numbered c.stem n) { c with names }
  | .error _ names => .error .localNumbersExhausted { c with names }

/-- Adds a read of a new text. -/
def add (c : ReadCache α) (r : CachedRead α) (hnew : c.table.position? r.text = none) :
    ReadCache α :=
  { c with table := c.table.add r, inStep := c.inStep.add hnew }

/-- Adds a read, unless its text or its name is taken. -/
def insert (c : ReadCache α) (text name : String) (body : α) :
    EStateM.Result Clash (ReadCache α) PUnit :=
  if hnew : c.table.position? text = none then
    if c.table.entries.any fun r => r.name = name then .error (.localDeclared name) c
    else .ok ⟨⟩ (c.add ⟨text, name, body⟩ hnew)
  else .error (.readCached text) c

/-- Forgets the reads and keeps the numbering. -/
def clear (c : ReadCache α) : ReadCache α := { stem := c.stem, names := c.names }

@[simp] theorem toList_add (c : ReadCache α) (r : CachedRead α)
    (hnew : c.table.position? r.text = none) : (c.add r hnew).toList = c.toList ++ [r] := by
  simp [add, ReadTable.add, toList]

@[simp] theorem toList_clear (c : ReadCache α) : c.clear.toList = [] := rfl

theorem freshName_of_lt {c : ReadCache α} (h : c.names.value < Counter.last) :
    c.freshName = .ok (numbered c.stem c.names.value) { c with names := ⟨c.names.value + 1⟩ } := by
  rw [freshName, Counter.next_of_lt h]

theorem freshName_of_le {c : ReadCache α} (h : Counter.last ≤ c.names.value) :
    c.freshName = .error .localNumbersExhausted c := by
  rw [freshName, Counter.next_of_le h]

/-- A text is new to the index exactly if no read has it. -/
theorem new_iff (c : ReadCache α) (text : String) :
    c.table.position? text = none ↔ ∀ r ∈ c.toList, r.text ≠ text :=
  c.inStep.position?_eq_none_iff

theorem insert_of_new {c : ReadCache α} {text name : String}
    (hnew : c.table.position? text = none) (hname : ∀ r ∈ c.toList, r.name ≠ name) (body : α) :
    c.insert text name body = .ok ⟨⟩ (c.add ⟨text, name, body⟩ hnew) := by
  have hany : c.table.entries.any (fun r => decide (r.name = name)) = false := by
    rw [← Array.any_toList, List.any_eq_false]
    intro r hr
    simpa using hname r hr
  rw [insert, dif_pos hnew, hany]
  rfl

theorem insert_of_cached {c : ReadCache α} {text : String} (h : ∃ r ∈ c.toList, r.text = text)
    (name : String) (body : α) : c.insert text name body = .error (.readCached text) c := by
  obtain ⟨r, hr, htext⟩ := h
  exact dif_neg fun hnew => (c.new_iff text).mp hnew r hr htext

theorem insert_of_declared {c : ReadCache α} {text name : String}
    (htext : ∀ r ∈ c.toList, r.text ≠ text) (h : ∃ r ∈ c.toList, r.name = name) (body : α) :
    c.insert text name body = .error (.localDeclared name) c := by
  have hany : c.table.entries.any (fun r => decide (r.name = name)) = true := by
    rw [← Array.any_toList, List.any_eq_true]
    obtain ⟨r, hr, hname⟩ := h
    exact ⟨r, hr, by simpa using hname⟩
  rw [insert, dif_pos ((c.new_iff text).mpr htext), hany]
  rfl

/-- Through the index, looking up finds the reads that are listed. -/
theorem get?_eq_some_iff {c : ReadCache α} {text name : String} :
    c.get? text = some name ↔ ∃ r ∈ c.toList, r.text = text ∧ r.name = name := by
  simp only [get?, Option.bind_eq_bind, Option.bind_eq_some_iff, Option.pure_def,
    Option.some.injEq, c.inStep.position?_eq_some_iff, ← Array.getElem?_toList]
  constructor
  · intro h
    obtain ⟨i, ⟨r, hr, htext⟩, r', hr', hname⟩ := h
    obtain rfl : r = r' := Option.some.inj (hr.symm.trans hr')
    exact ⟨r, List.mem_of_getElem? hr, htext, hname⟩
  · intro h
    obtain ⟨r, hr, htext, hname⟩ := h
    obtain ⟨i, hi⟩ := List.mem_iff_getElem?.mp hr
    exact ⟨i, ⟨r, hi, htext⟩, r, hi, hname⟩

theorem get?_eq_none_iff {c : ReadCache α} {text : String} :
    c.get? text = none ↔ ∀ r ∈ c.toList, r.text ≠ text := by
  constructor
  · intro h r hr htext
    rw [get?_eq_some_iff.mpr ⟨r, hr, htext, rfl⟩] at h
    cases h
  · intro h
    cases hget : c.get? text with
    | none => rfl
    | some name =>
        obtain ⟨r, hr, htext, -⟩ := get?_eq_some_iff.mp hget
        exact absurd htext (h r hr)

end ReadCache
end FormulaCompiler
