namespace TwoWayGrammar

/-- The widths of machine words. -/
inductive Width where
  | bits8
  | bits16
  | bits32
  | bits64
  deriving DecidableEq

/-- A width counts bits. -/
def Width.bits : Width → Nat
  | .bits8 => 8
  | .bits16 => 16
  | .bits32 => 32
  | .bits64 => 64

/-- The words of a width are counted by a power of two. -/
def Width.words : Width → Nat
  | .bits8 => 256
  | .bits16 => 65536
  | .bits32 => 4294967296
  | .bits64 => 18446744073709551616

theorem Width.words_eq (width : Width) : width.words = Nat.pow 2 width.bits := by
  cases width <;> rfl

/-- An integer type is a width with or without a sign. -/
structure IntegerType where
  width : Width
  signed : Bool
  deriving DecidableEq

namespace IntegerType

/-- A word of the type holds its bits without a sign. -/
abbrev Word (type : IntegerType) : Type := BitVec type.width.bits

/-- The least integer of the type. -/
def least (type : IntegerType) : Int :=
  if type.signed then -(type.width.words / 2) else 0

/-- The greatest integer of the type. -/
def greatest (type : IntegerType) : Int :=
  if type.signed then type.width.words / 2 - 1 else type.width.words - 1

/-- The type holds the integers between its ends. -/
def Holds (type : IntegerType) (value : Int) : Prop :=
  type.least ≤ value ∧ value ≤ type.greatest

instance (type : IntegerType) (value : Int) : Decidable (type.Holds value) :=
  inferInstanceAs (Decidable (_ ∧ _))

/-- Narrowing keeps an integer modulo the number of words. -/
def wrap (type : IntegerType) (value : Int) : Int :=
  if type.signed then value.bmod type.width.words else value % type.width.words

/-- Narrowing ends in the type. -/
theorem holds_wrap (type : IntegerType) (value : Int) : type.Holds (type.wrap value) := by
  obtain ⟨width, signed⟩ := type
  have positive : 0 < width.words := by cases width <;> decide
  have lower := @Int.le_bmod value width.words positive
  have upper := @Int.bmod_lt value width.words positive
  cases width <;> cases signed <;>
    simp only [Holds, wrap, least, greatest, Width.words, Bool.false_eq_true, if_true,
      if_false] at * <;>
    omega

end IntegerType

end TwoWayGrammar
