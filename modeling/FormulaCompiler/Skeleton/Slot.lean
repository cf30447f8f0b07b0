/-!
# Slots of a unit skeleton

The four places of a skeleton that each unit fills with its own text.
-/

namespace FormulaCompiler

/-- A place to be filled. -/
inductive Slot where
  | unitName
  | fields
  | locals
  | expression
  deriving DecidableEq, Repr

namespace Slot

/-- The order in which missing slots are reported. -/
def all : List Slot := [.unitName, .fields, .locals, .expression]

/-- The word that stands for the slot. -/
def token : Slot → String
  | .unitName => "unit_name"
  | .fields => "fields"
  | .locals => "locals"
  | .expression => "expression"

/-- The slot that a word stands for. -/
def ofToken? (token : String) : Option Slot := all.find? fun s => s.token = token

/-- A word as it is marked in a skeleton. -/
def mark (token : String) : String := "$\x7b" ++ token ++ "\x7d"

/-- The slot as it stands in a skeleton. -/
def placeholder (s : Slot) : String := mark s.token

theorem mem_all (s : Slot) : s ∈ all := by
  cases s <;> decide

theorem ofToken?_token (s : Slot) : ofToken? s.token = some s := by
  cases s <;> decide

theorem token_of_ofToken? {token : String} {s : Slot} (h : ofToken? token = some s) :
    s.token = token := by
  simpa using List.find?_some h

end Slot
end FormulaCompiler
