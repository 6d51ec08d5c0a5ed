import TwoWayGrammar.Prism.Basic
import TwoWayGrammar.Decimal.Numeral

namespace TwoWayGrammar.Prism

/-- A list of characters is a text. -/
def chars : ValuePrism where
  preview
    | .list items => (Value.spelled? items).map .text
    | _ => none
  review
    | .text content => .list (Value.spell content)
    | other => other

/-- A spelled text is written with the characters it was read from. -/
theorem exact_chars : chars.Exact := by
  intro representation value found
  cases representation <;> simp [chars] at found
  obtain ⟨content, spelled, rfl⟩ := found
  simp [chars, Value.spell_of_spelled? spelled]

/-- A numeral of the type is an integer of the type. -/
def decimal (type : IntegerType) : ValuePrism where
  preview
    | .text content => (type.parse? content).map .number
    | _ => none
  review
    | .number value => .text (type.render value)
    | other => other

/-- A non-empty list of characters is a text. The empty text is reviewed as the digit zero. -/
def digitText : ValuePrism where
  preview
    | .nonEmpty head tail => (Value.spelled? (head :: tail)).map .text
    | _ => none
  review
    | .text [] => .nonEmpty (.char '0') []
    | .text (digit :: digits) => .nonEmpty (.char digit) (Value.spell digits)
    | other => other

/-- Digits are written with the characters they were read from. -/
theorem exact_digitText : digitText.Exact := by
  intro representation value found
  cases representation <;> simp [digitText] at found
  obtain ⟨content, spelled, rfl⟩ := found
  have same := Value.spell_of_spelled? spelled
  cases content with
  | nil => simp [Value.spell] at same
  | cons digit digits =>
    obtain ⟨rfl, rfl⟩ := List.cons.inj same
    rfl

/-- An optional sign with a text is the signed text. A review splits off a minus sign only. -/
def signedText : ValuePrism where
  preview
    | .pair .absent (.text digits) => some (.text digits)
    | .pair (.present (.char sign)) (.text digits) => some (.text (sign :: digits))
    | _ => none
  review
    | .text ('-' :: digits) => .pair (.present (.char '-')) (.text digits)
    | .text digits => .pair .absent (.text digits)
    | other => other

/-- Text without lower-case letters is read in lower case and written in upper case. -/
def shouting : ValuePrism where
  preview
    | .text content =>
      if content.any Char.isLower then none else some (.text (content.map Char.toLower))
    | _ => none
  review
    | .text content => .text (content.map Char.toUpper)
    | other => other

/-- An even digit is its number. A review writes the character so far behind zero, as a byte. -/
def evenDigit : ValuePrism where
  preview
    | .char digit =>
      let value := digit.toNat - '0'.toNat
      if digit.isDigit && value % 2 == 0 then some (.number value) else none
    | _ => none
  review
    | .number value => .char (Char.ofNat (('0'.toNat + value) % 256).toNat)
    | other => other

end TwoWayGrammar.Prism
