import TwoWayGrammar.Proofs.Decimal.Digits

namespace TwoWayGrammar

namespace Text

/-- A text is negative when it starts with a minus sign. -/
def isNegative (text : Text) : Bool := text.head? == some '-'

/-- The text after its minus sign, if it has one. -/
def unsigned (text : Text) : Text := if text.isNegative then text.tail else text

/-- The longest run of digits after the sign. -/
def leadingDigits (text : Text) : Text := text.unsigned.takeWhile Char.isDigit

/-- What follows the digits. -/
def afterDigits (text : Text) : Text := text.unsigned.dropWhile Char.isDigit

/-- Some text starts with a digit. -/
def StartsWithDigit (text : Text) : Prop := ∃ digit ∈ text.head?, digit.isDigit = true

/-- A minus sign or nothing. -/
def sign (negative : Bool) : Text := if negative then ['-'] else []

/-- A text as an input. -/
def atoms (text : Text) : Input := text.map .char

theorem isDigits_takeWhile (text : Text) : IsDigits (text.takeWhile Char.isDigit) :=
  List.all_eq_true.mp List.all_takeWhile

theorem isDigits_leadingDigits (text : Text) : IsDigits text.leadingDigits :=
  isDigits_takeWhile text.unsigned

theorem sign_append_unsigned (text : Text) : sign text.isNegative ++ text.unsigned = text := by
  cases text with
  | nil => rfl
  | cons first text =>
    by_cases minus : first = '-'
    · simp [sign, unsigned, isNegative, minus]
    · simp [sign, unsigned, isNegative, minus]

/-- A text is its sign, its digits and what follows them. -/
theorem sign_append_leadingDigits (text : Text) :
    sign text.isNegative ++ (text.leadingDigits ++ text.afterDigits) = text := by
  rw [leadingDigits, afterDigits, List.takeWhile_append_dropWhile, sign_append_unsigned]

variable {digits : Text}

theorem isNegative_sign_append (negative : Bool) (all : IsDigits digits) (nonempty : digits ≠ [])
    (rest : Text) : isNegative (sign negative ++ (digits ++ rest)) = negative := by
  cases digits with
  | nil => exact absurd rfl nonempty
  | cons digit digits =>
    have other : digit ≠ '-' := by
      rintro rfl
      exact absurd all.head (by decide)
    cases negative <;> simp [isNegative, sign, other]

theorem unsigned_sign_append (negative : Bool) (all : IsDigits digits) (nonempty : digits ≠ [])
    (rest : Text) : unsigned (sign negative ++ (digits ++ rest)) = digits ++ rest := by
  rw [unsigned, isNegative_sign_append negative all nonempty]
  cases negative <;> rfl

theorem leadingDigits_sign_append (negative : Bool) (all : IsDigits digits) (nonempty : digits ≠ [])
    (rest : Text) : leadingDigits (sign negative ++ (digits ++ rest)) =
      digits ++ rest.takeWhile Char.isDigit := by
  rw [leadingDigits, unsigned_sign_append negative all nonempty, List.takeWhile_append_of_pos all]

theorem afterDigits_sign_append (negative : Bool) (all : IsDigits digits) (nonempty : digits ≠ [])
    (rest : Text) : afterDigits (sign negative ++ (digits ++ rest)) =
      rest.dropWhile Char.isDigit := by
  rw [afterDigits, unsigned_sign_append negative all nonempty, List.dropWhile_append_of_pos all]

/-- Only a text that does not start with a digit is left as it is by a run of digits before it. -/
theorem dropWhile_eq_iff (text : Text) :
    text.dropWhile Char.isDigit = text ↔ ¬ text.StartsWithDigit := by
  cases text with
  | nil => simp [StartsWithDigit]
  | cons digit text =>
    by_cases isDigit : digit.isDigit = true
    · have shorter : (text.dropWhile Char.isDigit).length ≤ text.length :=
        (List.dropWhile_sublist _).length_le
      have different : text.dropWhile Char.isDigit ≠ digit :: text := by
        intro same
        rw [same] at shorter
        simp only [List.length_cons] at shorter
        omega
      simp [StartsWithDigit, isDigit, different]
    · simp [StartsWithDigit, isDigit]

theorem takeWhile_eq_nil {text : Text} (stops : ¬ text.StartsWithDigit) :
    text.takeWhile Char.isDigit = [] := by
  cases text with
  | nil => rfl
  | cons digit text =>
    have other : ¬ digit.isDigit = true := fun isDigit => stops ⟨digit, rfl, isDigit⟩
    rw [List.takeWhile_cons_of_neg other]

@[simp] theorem length_atoms (text : Text) : text.atoms.length = text.length := List.length_map _

theorem atoms_append (first second : Text) :
    atoms (first ++ second) = first.atoms ++ second.atoms :=
  List.map_append

theorem atoms_inj {first second : Text} : first.atoms = second.atoms ↔ first = second :=
  List.map_inj_right fun _ _ same => Atom.char.inj same

end Text

end TwoWayGrammar
