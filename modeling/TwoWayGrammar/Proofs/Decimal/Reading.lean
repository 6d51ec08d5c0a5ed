import TwoWayGrammar.Proofs.Decimal.Numeral
import TwoWayGrammar.Proofs.Decimal.SignedText

/-! The totals on the way never pass the limit, so the arithmetic of words is exact at every digit. -/

namespace TwoWayGrammar.IntegerType

variable {type : IntegerType} {limit total later : type.Word} {digit : Char} {text rest digits : Text}

/-- Reading comes from a total and a text to a later total and the text that is left, by digits that each
have room. -/
inductive ComesTo (type : IntegerType) (limit : type.Word) :
    type.Word → Text → type.Word → Text → Prop
  | here (total : type.Word) (text : Text) : ComesTo type limit total text total text
  | further {total later : type.Word} {digit : Char} {text rest : Text}
      (isDigit : digit.isDigit = true) (room : type.hasRoom limit total digit = true)
      (others : ComesTo type limit (total * 10 + type.digitWord digit) text later rest) :
      ComesTo type limit total (digit :: text) later rest

/-- Wherever reading has come to, it ends as it ends from there. -/
theorem ComesTo.accumulate_eq (reached : type.ComesTo limit total text later rest) :
    type.accumulate limit total text = type.accumulate limit later rest := by
  induction reached with
  | here total text => rfl
  | further isDigit room others ih =>
    rw [accumulate, isDigit, room]
    exact ih

/-- One digit with room keeps the total within the limit. -/
theorem extend_le (isDigit : digit.isDigit = true) (enough : 9 ≤ limit.toNat)
    (room : type.hasRoom limit total digit = true) :
    (total * 10 + type.digitWord digit).toNat ≤ limit.toNat := by
  have fits := (hasRoom_iff isDigit enough).mp room
  rw [toNat_extend isDigit fits]
  exact fits

/-- No digit takes the total beyond the limit. -/
theorem ComesTo.le_limit (reached : type.ComesTo limit total text later rest)
    (enough : 9 ≤ limit.toNat) (fits : total.toNat ≤ limit.toNat) : later.toNat ≤ limit.toNat := by
  induction reached with
  | here total text => exact fits
  | further isDigit room others ih => exact ih (extend_le isDigit enough room)

/-- The total is the number of the digits that were read onto the one before them. -/
theorem ComesTo.exists_digits (reached : type.ComesTo limit total text later rest)
    (enough : 9 ≤ limit.toNat) :
    ∃ digits, text = digits ++ rest ∧ Text.IsDigits digits ∧
      later.toNat = Nat.ofDigitChars 10 digits total.toNat := by
  induction reached with
  | here total text => exact ⟨[], rfl, by simp [Text.IsDigits], by simp⟩
  | @further total later digit text rest isDigit room others ih =>
    obtain ⟨digits, rfl, all, same⟩ := ih
    refine ⟨digit :: digits, rfl, ?_, ?_⟩
    · simpa [Text.IsDigits, isDigit] using all
    · rw [same, toNat_extend isDigit ((hasRoom_iff isDigit enough).mp room), Nat.ofDigitChars_cons]
      rfl

/-- Only digits extend a total. -/
theorem isDigits_of_accumulate (found : type.accumulate limit total digits = some later) :
    Text.IsDigits digits := by
  induction digits generalizing total with
  | nil => simp [Text.IsDigits]
  | cons digit digits ih =>
    rw [accumulate] at found
    split at found
    · rename_i goesOn
      simp only [Bool.and_eq_true] at goesOn
      simpa [Text.IsDigits, goesOn.1] using ih found
    · simp at found

/-- A minus sign is taken off first, and an unsigned type has none. -/
theorem parse?_eq_parseDigits? (type : IntegerType) (text : Text) :
    type.parse? text =
      if text.isNegative = true → type.signed = true then
        type.parseDigits? text.isNegative text.unsigned else none := by
  cases text with
  | nil => simp [parse?, Text.isNegative, Text.unsigned]
  | cons first text =>
    by_cases minus : first = '-'
    · subst minus
      simp [parse?, Text.isNegative, Text.unsigned]
    · have parsed : type.parse? (first :: text) = type.parseDigits? false (first :: text) := by
        unfold parse?
        split
        · rename_i same
          exact absurd (List.cons.inj same).1 minus
        · rfl
      have positive : Text.isNegative (first :: text) = false := by simp [Text.isNegative, minus]
      simp [parsed, Text.unsigned, positive]

theorem parseDigits?_of_ne_nil (negative : Bool) (nonempty : digits ≠ []) :
    type.parseDigits? negative digits =
      (type.accumulate (type.limit negative) 0 digits).map (type.ofMagnitude negative) := by
  cases digits with
  | nil => exact absurd rfl nonempty
  | cons digit digits => rfl

/-- A text is an integer of the type when it is at least one digit, with a minus sign before them at most
where the type has one, and denotes an integer of the type. -/
theorem parse?_eq_some_iff {value : Int} :
    type.parse? text = some value ↔
      text.unsigned ≠ [] ∧ Text.IsDigits text.unsigned ∧
        (text.isNegative = true → type.signed = true) ∧ type.Holds value ∧
          value = Text.integer text.isNegative text.unsigned := by
  rw [parse?_eq_parseDigits?]
  by_cases sign : text.isNegative = true → type.signed = true
  · rw [if_pos sign]
    by_cases nonempty : text.unsigned = []
    · simp [nonempty, parseDigits?]
    · by_cases all : Text.IsDigits text.unsigned
      · rw [parseDigits?_eq sign all nonempty]
        by_cases holds : type.Holds (Text.integer text.isNegative text.unsigned)
        · rw [if_pos holds, Option.some.injEq]
          exact ⟨fun same => ⟨nonempty, all, sign, same ▸ holds, same.symm⟩,
            fun ⟨_, _, _, _, same⟩ => same.symm⟩
        · rw [if_neg holds]
          refine ⟨by simp, ?_⟩
          rintro ⟨_, _, _, held, rfl⟩
          exact absurd held holds
      · refine ⟨fun found => ?_, fun ⟨_, digits, _⟩ => absurd digits all⟩
        rw [parseDigits?_of_ne_nil _ nonempty] at found
        obtain ⟨last, read, _⟩ := Option.map_eq_some_iff.mp found
        exact absurd (isDigits_of_accumulate read) all
  · rw [if_neg sign]
    exact ⟨by simp, fun ⟨_, _, signed, _⟩ => absurd signed sign⟩

/-- The arithmetic of words is that of numbers at a total and the text behind it: the next digit is taken
off a limit that is no smaller, a digit with room extends the total up to the limit at most, and a last
total other than zero is negated by way of integers of the type. -/
structure ExactAt (type : IntegerType) (negative : Bool) (total : type.Word) (rest : Text) : Prop where
  fits : total.toNat ≤ (type.limit negative).toNat
  difference : ∀ digit ∈ rest.head?, digit.isDigit = true →
    digit.toNat - 48 ≤ (type.limit negative).toNat ∧
      (type.limit negative - type.digitWord digit).toNat =
        (type.limit negative).toNat - (digit.toNat - 48)
  extension : ∀ digit ∈ rest.head?, digit.isDigit = true →
    type.hasRoom (type.limit negative) total digit = true →
      (total * 10 + type.digitWord digit).toNat = 10 * total.toNat + (digit.toNat - 48) ∧
        10 * total.toNat + (digit.toNat - 48) ≤ (type.limit negative).toNat
  negation : rest = [] → negative = true → total ≠ 0 →
    (total - 1).toInt + 1 = total.toNat ∧ type.Holds (-(total - 1).toInt) ∧
      type.Holds (-(total - 1).toInt - 1)

/-- A total within the limit leaves room for exact arithmetic. -/
theorem exactAt_of_le {negative : Bool} (sign : negative = true → type.signed = true)
    (fits : total.toNat ≤ (type.limit negative).toNat) (rest : Text) :
    type.ExactAt negative total rest where
  fits := fits
  difference digit _ isDigit := by
    have range := Text.toNat_of_isDigit isDigit
    have enough := nine_le_limit sign
    exact ⟨by omega, toNat_sub_digitWord isDigit enough⟩
  extension digit _ isDigit room := by
    have extended := (hasRoom_iff isDigit (nine_le_limit sign)).mp room
    exact ⟨toNat_extend isDigit extended, extended⟩
  negation _ negative nonzero := by
    subst negative
    have signed := sign rfl
    have lowered := toInt_lowered signed nonzero fits
    have positive := toNat_lowered nonzero
    have limit := type.toNat_limit true
    simp only [if_true] at limit
    have ends : -type.least = type.greatest + 1 := by
      simp only [least, greatest, signed, if_true]
      omega
    refine ⟨lowered, ?_⟩
    simp only [Holds]
    omega

/-- A text of any length is read as the integer that it denotes, or not at all: it has to be at least one
digit, with a minus sign before them only if the type is signed, and to denote an integer of the type. At
every digit the total is the number of the digits before it, and no step of the arithmetic wraps around. -/
theorem parse_exact (type : IntegerType) (text : Text) :
    (∀ value, type.parse? text = some value ↔
      text.unsigned ≠ [] ∧ Text.IsDigits text.unsigned ∧
        (text.isNegative = true → type.signed = true) ∧ type.Holds value ∧
          value = Text.integer text.isNegative text.unsigned) ∧
    ((text.isNegative = true → type.signed = true) → text.unsigned ≠ [] →
      ∀ total rest, type.ComesTo (type.limit text.isNegative) 0 text.unsigned total rest →
        type.parse? text = (type.accumulate (type.limit text.isNegative) total rest).map
          (type.ofMagnitude text.isNegative) ∧
        (∃ digits, text.unsigned = digits ++ rest ∧ Text.IsDigits digits ∧
          total.toNat = Text.number digits) ∧
        type.ExactAt text.isNegative total rest) := by
  refine ⟨fun value => parse?_eq_some_iff, fun sign nonempty total rest reached => ⟨?_, ?_, ?_⟩⟩
  · rw [parse?_eq_parseDigits?, if_pos sign, parseDigits?_of_ne_nil _ nonempty, reached.accumulate_eq]
  · simpa [Text.number] using reached.exists_digits (nine_le_limit sign)
  · exact exactAt_of_le sign (reached.le_limit (nine_le_limit sign) (by simp)) rest

/-- The least integer of eight bits is read behind a leading zero. Before its last digit the total is
twelve, and the last total is above every integer of the type. -/
theorem parse_exact_least :
    let type : IntegerType := ⟨.bits8, true⟩
    let text : Text := ['-', '0', '1', '2', '8']
    type.parse? text = some (-128) ∧
    type.ComesTo (type.limit true) 0 text.unsigned 12 ['8'] ∧ type.ExactAt true 12 ['8'] ∧
    type.ComesTo (type.limit true) 0 text.unsigned 128 [] ∧ type.ExactAt true 128 [] := by
  intro type text
  have step {total later : type.Word} {digit : Char} {text rest : Text} (next : type.Word)
      (isDigit : digit.isDigit = true) (room : type.hasRoom (type.limit true) total digit = true)
      (extended : total * 10 + type.digitWord digit = next)
      (others : type.ComesTo (type.limit true) next text later rest) :
      type.ComesTo (type.limit true) total (digit :: text) later rest :=
    .further isDigit room (extended ▸ others)
  have twelve {later : type.Word} {rest : Text}
      (others : type.ComesTo (type.limit true) 12 ['8'] later rest) :
      type.ComesTo (type.limit true) 0 text.unsigned later rest :=
    step 0 rfl (by decide) (by decide)
      (step 1 rfl (by decide) (by decide) (step 12 rfl (by decide) (by decide) others))
  have before := twelve (.here 12 ['8'])
  have behind := twelve (step 128 rfl (by decide) (by decide) (.here 128 []))
  obtain ⟨reads, onTheWay⟩ := parse_exact type text
  have exactly := onTheWay (by decide) (by decide)
  refine ⟨(reads (-128)).mpr ?_, before, (exactly _ _ before).2.2, behind, (exactly _ _ behind).2.2⟩
  exact ⟨by decide, by decide, by decide, by decide, by decide⟩

end TwoWayGrammar.IntegerType
