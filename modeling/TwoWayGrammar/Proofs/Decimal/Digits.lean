import TwoWayGrammar.Atom

namespace TwoWayGrammar

/-- A text of digits only. -/
def Text.IsDigits (text : Text) : Prop := ∀ digit ∈ text, digit.isDigit = true

instance (text : Text) : Decidable text.IsDigits :=
  List.decidableBAll (fun digit : Char => digit.isDigit = true) text

namespace Text

variable {digit : Char} {digits : Text}

/-- The natural number that a run of digits denotes. -/
def number (digits : Text) : Nat := Nat.ofDigitChars 10 digits 0

theorem IsDigits.head (all : IsDigits (digit :: digits)) : digit.isDigit = true :=
  all digit List.mem_cons_self

theorem IsDigits.tail (all : IsDigits (digit :: digits)) : IsDigits digits :=
  fun other member => all other (List.mem_cons_of_mem digit member)

theorem toNat_of_isDigit (isDigit : digit.isDigit = true) : 48 ≤ digit.toNat ∧ digit.toNat ≤ 57 :=
  Char.isDigit_iff_toNat.mp isDigit

theorem digitChar_of_isDigit (isDigit : digit.isDigit = true) :
    Nat.digitChar (digit.toNat - 48) = digit := by
  have range := toNat_of_isDigit isDigit
  apply Char.toNat_inj.mp
  rw [Nat.toNat_digitChar_of_lt_ten (by omega)]
  omega

theorem isDigits_toDigits (value : Nat) : IsDigits (Nat.toDigits 10 value) := fun _ member =>
  Nat.isDigit_of_mem_toDigits (by decide) (by decide) member

theorem number_cons (digit : Char) (digits : Text) :
    number (digit :: digits) = Nat.ofDigitChars 10 digits (digit.toNat - 48) := by
  simp [number, Nat.ofDigitChars_cons]

/-- Further digits follow the digits of a positive number. -/
theorem toDigits_ofDigitChars {total : Nat} (positive : 0 < total) (all : IsDigits digits) :
    Nat.toDigits 10 (Nat.ofDigitChars 10 digits total) = Nat.toDigits 10 total ++ digits := by
  induction digits generalizing total with
  | nil => simp
  | cons digit digits ih =>
    have range := toNat_of_isDigit all.head
    have small : digit.toNat - 48 < 10 := by omega
    have extended : Nat.toDigits 10 total ++ [digit] =
        Nat.toDigits 10 (10 * total + (digit.toNat - 48)) := by
      rw [← Nat.toDigits_append_toDigits (by decide) positive small, Nat.toDigits_of_lt_base small,
        digitChar_of_isDigit all.head]
    rw [Nat.ofDigitChars_cons]
    change Nat.toDigits 10 (Nat.ofDigitChars 10 digits (10 * total + (digit.toNat - 48))) = _
    rw [ih (by omega) all.tail, ← extended, List.append_assoc]
    rfl

/-- Digits that start with another digit than zero are the digits of their number. -/
theorem toDigits_number_of_ne (all : IsDigits (digit :: digits)) (nonzero : digit ≠ '0') :
    Nat.toDigits 10 (number (digit :: digits)) = digit :: digits := by
  have range := toNat_of_isDigit all.head
  have positive : 0 < digit.toNat - 48 := by
    have : digit.toNat ≠ 48 := fun same => nonzero (Char.toNat_inj.mp same)
    omega
  rw [number_cons, toDigits_ofDigitChars positive all.tail, Nat.toDigits_of_lt_base (by omega),
    digitChar_of_isDigit all.head]
  rfl

/-- Digits of the number zero start with a zero. -/
theorem head?_of_number_eq_zero (all : IsDigits digits) (nonempty : digits ≠ [])
    (zero : number digits = 0) : digits.head? = some '0' := by
  cases digits with
  | nil => exact absurd rfl nonempty
  | cons digit digits =>
    by_cases leading : digit = '0'
    · simp [leading]
    · have same := toDigits_number_of_ne all leading
      rw [zero, Nat.toDigits_zero] at same
      exact absurd (List.cons.inj same).1.symm leading

/-- A leading zero adds nothing to the number. -/
theorem number_zero_cons (digits : Text) : number ('0' :: digits) = number digits :=
  number_cons '0' digits

theorem length_toDigits_number_le (all : IsDigits digits) (nonempty : digits ≠ []) :
    (Nat.toDigits 10 (number digits)).length ≤ digits.length := by
  induction digits with
  | nil => exact absurd rfl nonempty
  | cons digit digits ih =>
    by_cases zero : digit = '0'
    · subst zero
      rw [number_zero_cons]
      cases digits with
      | nil => decide
      | cons next others => exact Nat.le_succ_of_le (ih all.tail (by simp))
    · exact Nat.le_of_eq (congrArg List.length (toDigits_number_of_ne all zero))

/-- A run of digits is canonical when it is a single zero or starts with another digit. -/
def Canonical (digits : Text) : Prop := digits = ['0'] ∨ digits.head? ≠ some '0'

/-- The canonical runs are the shortest ones. -/
theorem toDigits_number_eq_iff (all : IsDigits digits) (nonempty : digits ≠ []) :
    Nat.toDigits 10 (number digits) = digits ↔ Canonical digits := by
  cases digits with
  | nil => exact absurd rfl nonempty
  | cons digit digits =>
    by_cases zero : digit = '0'
    · subst zero
      rw [number_zero_cons]
      constructor
      · intro same
        cases digits with
        | nil => exact .inl rfl
        | cons next others =>
          have short := length_toDigits_number_le all.tail (by simp)
          rw [same] at short
          simp only [List.length_cons] at short
          omega
      · rintro (only | other)
        · obtain rfl := (List.cons.inj only).2
          rfl
        · simp at other
    · simp [toDigits_number_of_ne all zero, Canonical, zero]

end Text

end TwoWayGrammar
