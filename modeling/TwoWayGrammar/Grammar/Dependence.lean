import TwoWayGrammar.Grammar.Basic

namespace TwoWayGrammar

namespace Value

/-- A number counts modulo the number of 64-bit words, and nothing else counts. -/
def count : Value → Nat
  | .number value => (value % Width.bits64.words).toNat
  | _ => 0

/-- A count that 64 bits hold counts itself. -/
theorem count_number {count : Nat} (fits : count < Width.bits64.words) :
    Value.count (.number count) = count := by
  rw [Width.words] at fits
  rw [Value.count, Width.words]
  omega

/-- The length of a text or of a list, as an integer of the type. -/
def lengthIn (type : IntegerType) : Value → Value
  | .text content => .number (type.wrap content.length)
  | .list items => .number (type.wrap items.length)
  | _ => .unit

/-- One value stands for every left alternative and another for every right one. -/
def side (forLeft forRight : Value) : Value → Value
  | .left _ => forLeft
  | .right _ => forRight
  | _ => .unit

end Value

namespace Grammar

/-- The value counts how often the body follows. -/
def counted (capacity : Capacity) (body : Grammar) (determinant : Value) : Grammar :=
  replicate capacity determinant.count body

/-- The value itself follows once more. A value that is no atom cannot follow. -/
def repeated : Value → Grammar
  | .atom atom => symbol atom
  | _ => satisfy fun _ => false

/-- The first key equal to the value selects its branch, and the last branch is for all others. -/
def selected (keys : List Value) (branches : Fin (keys.length + 1) → Grammar)
    (determinant : Value) : Grammar :=
  branches ⟨keys.findIdx (· = determinant), Nat.lt_succ_of_le List.findIdx_le_length⟩

end Grammar

end TwoWayGrammar
