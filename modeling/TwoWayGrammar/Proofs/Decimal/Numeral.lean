import TwoWayGrammar.Decimal.Numeral
import TwoWayGrammar.Proofs.Decimal.Digits

namespace TwoWayGrammar

/-- The integer that digits denote, with or without a minus sign before them. -/
def Text.integer (negative : Bool) (digits : Text) : Int :=
  if negative then -(Text.number digits) else Text.number digits

namespace IntegerType

variable {type : IntegerType} {limit total : type.Word} {digit : Char} {digits : Text}

theorem words_gt (type : IntegerType) : 255 < Nat.pow 2 type.width.bits := by
  cases type.width <;> decide

/-- The limit is the distance from zero to an end of the type. -/
theorem toNat_limit (type : IntegerType) (negative : Bool) :
    ((type.limit negative).toNat : Int) = if negative then -type.least else type.greatest := by
  obtain ⟨width, signed⟩ := type
  cases width <;> cases signed <;> cases negative <;> decide

theorem toNat_digitWord (type : IntegerType) (isDigit : digit.isDigit = true) :
    (type.digitWord digit).toNat = digit.toNat - 48 := by
  have range := Text.toNat_of_isDigit isDigit
  have words : 255 < 2 ^ type.width.bits := type.words_gt
  change (BitVec.ofNat type.width.bits (digit.toNat - 48)).toNat = digit.toNat - 48
  rw [BitVec.toNat_ofNat, Nat.mod_eq_of_lt (by omega)]

theorem toNat_ten (type : IntegerType) : (10 : type.Word).toNat = 10 := by
  have words : 255 < 2 ^ type.width.bits := type.words_gt
  change (BitVec.ofNat type.width.bits 10).toNat = 10
  rw [BitVec.toNat_ofNat, Nat.mod_eq_of_lt (by omega)]

/-- A digit is taken off the limit without going below zero. -/
theorem toNat_sub_digitWord (isDigit : digit.isDigit = true) (enough : 9 ≤ limit.toNat) :
    (limit - type.digitWord digit).toNat = limit.toNat - (digit.toNat - 48) := by
  have range := Text.toNat_of_isDigit isDigit
  have word := type.toNat_digitWord isDigit
  rw [BitVec.toNat_sub_of_le (by rw [BitVec.le_def, word]; omega), word]

/-- There is room for a digit exactly when the extended total fits the limit. -/
theorem hasRoom_iff (isDigit : digit.isDigit = true) (enough : 9 ≤ limit.toNat) :
    type.hasRoom limit total digit = true ↔ 10 * total.toNat + (digit.toNat - 48) ≤ limit.toNat := by
  have range := Text.toNat_of_isDigit isDigit
  rw [hasRoom, decide_eq_true_eq, BitVec.le_def, BitVec.toNat_udiv,
    toNat_sub_digitWord isDigit enough, type.toNat_ten]
  omega

/-- A total with room for a digit does not wrap around. -/
theorem toNat_extend (isDigit : digit.isDigit = true)
    (room : 10 * total.toNat + (digit.toNat - 48) ≤ limit.toNat) :
    (total * 10 + type.digitWord digit).toNat = 10 * total.toNat + (digit.toNat - 48) := by
  have bound := limit.isLt
  rw [BitVec.toNat_add, BitVec.toNat_mul, type.toNat_ten, type.toNat_digitWord isDigit,
    Nat.mod_eq_of_lt (show total.toNat * 10 < 2 ^ type.width.bits by omega),
    Nat.mod_eq_of_lt (by omega)]
  omega

theorem le_ofDigitChars (digits : Text) (total : Nat) :
    total ≤ Nat.ofDigitChars 10 digits total := by
  have positive : 1 ≤ 10 ^ digits.length := Nat.one_le_pow _ _ (by decide)
  rw [Nat.ofDigitChars_eq_ofDigitChars_zero]
  exact Nat.le_add_right_of_le (Nat.le_mul_of_pos_left total positive)

/-- Reading digits onto a total gives the number with them, unless it is above the limit. -/
theorem accumulate_eq (all : Text.IsDigits digits) (enough : 9 ≤ limit.toNat)
    (fits : total.toNat ≤ limit.toNat) :
    type.accumulate limit total digits =
      if Nat.ofDigitChars 10 digits total.toNat ≤ limit.toNat then
        some (BitVec.ofNat _ (Nat.ofDigitChars 10 digits total.toNat)) else none := by
  induction digits generalizing total with
  | nil => simp [accumulate, fits]
  | cons digit digits ih =>
    have isDigit := all.head
    rw [accumulate, isDigit, Bool.true_and, Nat.ofDigitChars_cons]
    change (if type.hasRoom limit total digit = true then _ else none) =
      if Nat.ofDigitChars 10 digits (10 * total.toNat + (digit.toNat - 48)) ≤ limit.toNat then
        some (BitVec.ofNat _ (Nat.ofDigitChars 10 digits (10 * total.toNat + (digit.toNat - 48))))
      else none
    by_cases room : 10 * total.toNat + (digit.toNat - 48) ≤ limit.toNat
    · have extended := toNat_extend isDigit room
      rw [if_pos ((hasRoom_iff isDigit enough).mpr room), ih all.tail (by rw [extended]; exact room),
        extended]
    · have above := le_ofDigitChars digits (10 * total.toNat + (digit.toNat - 48))
      rw [if_neg (by rw [hasRoom_iff isDigit enough]; exact room), if_neg (by omega)]

/-- The limit of a signed type leaves out the other half of the words, but for the least integer. -/
theorem toNat_limit_of_signed (signed : type.signed = true) (negative : Bool) :
    2 * (type.limit negative).toNat + (if negative then 0 else 2) = type.width.words := by
  have limit := type.toNat_limit negative
  have even : 2 * (type.width.words / 2) = type.width.words := by cases type.width <;> rfl
  cases negative <;>
    simp only [least, greatest, signed, if_true, Bool.false_eq_true, if_false] at limit ⊢ <;>
    omega

theorem toInt_of_lt (small : 2 * total.toNat < type.width.words) : total.toInt = total.toNat := by
  rw [type.width.words_eq] at small
  exact BitVec.toInt_eq_toNat_of_lt small

theorem toNat_lowered (nonzero : total ≠ 0) : (total - 1).toNat + 1 = total.toNat := by
  have words : 255 < 2 ^ type.width.bits := type.words_gt
  have one : (1 : type.Word).toNat = 1 := by
    change (BitVec.ofNat type.width.bits 1).toNat = 1
    rw [BitVec.toNat_ofNat, Nat.mod_eq_of_lt (by omega)]
  have positive : 0 < total.toNat :=
    Nat.pos_of_ne_zero fun zero => nonzero (BitVec.eq_of_toNat_eq (by simpa using zero))
  rw [BitVec.toNat_sub_of_le (by rw [BitVec.le_def, one]; omega), one]
  omega

/-- A total within the limit of the negative integers is one above an integer of the type. -/
theorem toInt_lowered (signed : type.signed = true) (nonzero : total ≠ 0)
    (fits : total.toNat ≤ (type.limit true).toNat) : (total - 1).toInt + 1 = total.toNat := by
  have limit := toNat_limit_of_signed signed true
  have lowered := toNat_lowered nonzero
  simp only [if_true] at limit
  rw [toInt_of_lt (by omega)]
  omega

/-- A magnitude within the limit is the word of an integer of the type. -/
theorem ofMagnitude_ofNat (type : IntegerType) {negative : Bool} {magnitude : Nat}
    (sign : negative = true → type.signed = true)
    (fits : magnitude ≤ (type.limit negative).toNat) :
    type.ofMagnitude negative (BitVec.ofNat _ magnitude) =
      if negative then -(magnitude : Int) else magnitude := by
  have bound := (type.limit negative).isLt
  have same : (BitVec.ofNat type.width.bits magnitude).toNat = magnitude := by
    rw [BitVec.toNat_ofNat, Nat.mod_eq_of_lt (by omega)]
  rw [ofMagnitude]
  cases signed : type.signed with
  | false =>
    have positive : negative = false := by simpa [signed] using sign
    simp [positive, same]
  | true =>
    have limit := toNat_limit_of_signed signed negative
    cases negative with
    | false =>
      simp only [Bool.false_eq_true, if_false] at limit
      simpa [same] using
        toInt_of_lt (show 2 * (BitVec.ofNat type.width.bits magnitude).toNat < type.width.words by omega)
    | true =>
      by_cases zero : BitVec.ofNat type.width.bits magnitude = 0
      · have nothing : magnitude = 0 := by simpa [zero] using same.symm
        simp [nothing]
      · have lowered := toInt_lowered signed zero (by rw [same]; exact fits)
        rw [same] at lowered
        simp only [Bool.true_and, bne_iff_ne, ne_eq, zero, not_false_eq_true, if_true]
        omega

/-- Every limit that is read against is above the greatest digit. -/
theorem nine_le_limit {negative : Bool} (sign : negative = true → type.signed = true) :
    9 ≤ (type.limit negative).toNat := by
  obtain ⟨width, signed⟩ := type
  cases width <;> cases signed <;> cases negative <;> first | decide | simp at sign

/-- At least one digit is an integer when the type holds it. -/
theorem parseDigits?_eq {negative : Bool} (sign : negative = true → type.signed = true)
    (all : Text.IsDigits digits) (nonempty : digits ≠ []) :
    type.parseDigits? negative digits =
      if type.Holds (Text.integer negative digits) then some (Text.integer negative digits)
      else none := by
  have limit := type.toNat_limit negative
  have enough := nine_le_limit sign
  have holds : type.Holds (Text.integer negative digits) ↔
      Text.number digits ≤ (type.limit negative).toNat := by
    have ends : type.least ≤ 0 ∧ 0 ≤ type.greatest := by
      obtain ⟨width, signed⟩ := type
      cases width <;> cases signed <;> decide
    cases negative <;>
      simp only [Holds, Text.integer, if_true, Bool.false_eq_true, if_false] at limit ⊢ <;>
      omega
  cases digits with
  | nil => exact absurd rfl nonempty
  | cons digit digits =>
    have zero : (0 : type.Word).toNat = 0 := by simp
    have opened : type.parseDigits? negative (digit :: digits) =
        (type.accumulate (type.limit negative) 0 (digit :: digits)).map
          (type.ofMagnitude negative) := rfl
    rw [opened, accumulate_eq all enough (by omega), zero]
    change Option.map _ (if Text.number (digit :: digits) ≤ _ then
      some (BitVec.ofNat _ (Text.number (digit :: digits))) else none) = _
    by_cases fits : Text.number (digit :: digits) ≤ (type.limit negative).toNat
    · rw [if_pos fits, if_pos (holds.mpr fits), Option.map_some, ofMagnitude_ofNat type sign fits]
      rfl
    · rw [if_neg fits, if_neg (mt holds.mp fits), Option.map_none]

/-- The magnitude of an integer of the type is its absolute value. -/
theorem toNat_magnitude {value : Int} (holds : type.Holds value) :
    (type.magnitude value).toNat = value.natAbs := by
  obtain ⟨lower, upper⟩ := holds
  have words := type.width.words_eq
  change type.width.words = 2 ^ type.width.bits at words
  have range : -(2 ^ type.width.bits : Nat) < value ∧ value < (2 ^ type.width.bits : Nat) := by
    have some : 0 < type.width.words := by cases type.width <;> decide
    unfold least at lower
    unfold greatest at upper
    rw [← words]
    cases signed : type.signed <;> simp only [signed] at lower upper <;> omega
  rw [magnitude]
  split
  · rename_i negative
    have word : (BitVec.ofInt type.width.bits value).toNat = 2 ^ type.width.bits - value.natAbs := by
      rw [BitVec.toNat_ofInt, ← Int.add_emod_right, Int.emod_eq_of_lt (by omega) (by omega)]
      omega
    have zero : (0 : type.Word).toNat = 0 := by simp
    rw [BitVec.toNat_sub, word, zero, Nat.mod_eq_of_lt (by omega)]
    omega
  · rw [BitVec.toNat_ofInt, Int.emod_eq_of_lt (by omega) (by omega)]
    omega

/-- The numeral of an integer of the type is the shortest one. -/
theorem render_eq {value : Int} (holds : type.Holds value) :
    type.render value = (if value < 0 then ['-'] else []) ++ Nat.toDigits 10 value.natAbs := by
  rw [render, toNat_magnitude holds]

end IntegerType

end TwoWayGrammar
