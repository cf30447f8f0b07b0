import FormulaCompiler.BuildError

/-!
# Counters for generated names

A generated name is a stem followed by a number that its counter hands out once. A counter ends at
the largest number of 64 bits. Generators may share counters, so counters live apart from them and
are named.
-/

namespace FormulaCompiler

/-- A source of numbers, each handed out once. -/
structure Counter where
  /-- The number that is handed out next. -/
  value : Nat := 0
  deriving DecidableEq, Repr, Inhabited

namespace Counter

/-- Where a counter ends. This number is not handed out. -/
def last : Nat := UInt64.size - 1

/-- Hands out a number, or fails and stays as it is. -/
def next (c : Counter) : EStateM.Result Clash Counter Nat :=
  if c.value < last then .ok c.value ⟨c.value + 1⟩ else .error .numbersExhausted c

theorem next_of_lt {c : Counter} (h : c.value < last) : c.next = .ok c.value ⟨c.value + 1⟩ :=
  if_pos h

theorem next_of_le {c : Counter} (h : last ≤ c.value) : c.next = .error .numbersExhausted c :=
  if_neg (Nat.not_lt.mpr h)

end Counter

/-- A stem followed by a number. -/
def numbered (stem : String) (n : Nat) : String := stem ++ toString n

/-- The counters that generators refer to: the shared ones for units and for fields, and any number
of private ones. -/
inductive CounterId where
  | units
  | fields
  | own (n : Nat)
  deriving DecidableEq, Repr

/-- The state of all counters. -/
structure Counters where
  get : CounterId → Counter := fun _ => {}

namespace Counters

/-- Puts one counter into a state. -/
def set (cs : Counters) (id : CounterId) (c : Counter) : Counters :=
  ⟨fun other => if other = id then c else cs.get other⟩

/-- The number that a counter hands out next. -/
def peek (cs : Counters) (id : CounterId) : Nat := (cs.get id).value

/-- Hands out a number of one counter. -/
def next (cs : Counters) (id : CounterId) : EStateM.Result Clash Counters Nat :=
  match (cs.get id).next with
  | .ok n c => .ok n (cs.set id c)
  | .error cause c => .error cause (cs.set id c)

/-- Starts one counter again from zero. -/
def reset (cs : Counters) (id : CounterId) : Counters := cs.set id {}

@[simp] theorem get_set (cs : Counters) (id other : CounterId) (c : Counter) :
    (cs.set id c).get other = if other = id then c else cs.get other := rfl

@[simp] theorem set_get (cs : Counters) (id : CounterId) : cs.set id (cs.get id) = cs := by
  cases cs
  simp only [set, Counters.mk.injEq]
  funext other
  split <;> simp_all

@[simp] theorem set_set (cs : Counters) (id : CounterId) (c d : Counter) :
    (cs.set id c).set id d = cs.set id d := by
  simp only [set, Counters.mk.injEq]
  funext other
  split <;> simp_all

end Counters
end FormulaCompiler
