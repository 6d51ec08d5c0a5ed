import TwoWayGrammar.Proofs.Decimal.Numeral
import TwoWayGrammar.Proofs.Decimal.SignedText
import TwoWayGrammar.Proofs.Grammar.Clauses
import TwoWayGrammar.Proofs.Run.Inversion

namespace TwoWayGrammar

namespace Grammar

variable {fuel : Nat} {held : AddressSet} {store : Store}

/-- Reading atoms that pass a test takes the longest run of them. -/
theorem readMany_satisfy (test : Test) (input : Input) {attempts : Nat}
    (enough : input.length < attempts) :
    Run.readMany ((satisfy test).read fuel) attempts input held store =
      (.returned ((input.takeWhile test).map .atom, input.dropWhile test), store) := by
  induction input generalizing attempts with
  | nil =>
    obtain ⟨more, rfl⟩ : ∃ more, attempts = more + 1 := ⟨attempts - 1, by omega⟩
    have missed : (satisfy test).read fuel [] held store = (.returned (.failure []), store) := by
      rw [read_primitive]
      rfl
    exact Run.bind_of_returned missed
  | cons atom input ih =>
    obtain ⟨more, rfl⟩ : ∃ more, attempts = more + 1 := ⟨attempts - 1, by omega⟩
    by_cases passes : test atom = true
    · have found : (satisfy test).read fuel (atom :: input) held store =
          (.returned (.success (.atom atom) input), store) := by
        rw [read_primitive]
        simp [Primitive.read, passes]
      refine (Run.bind_of_returned found).trans ?_
      refine (Run.bind_of_returned (ih (by simpa using enough))).trans ?_
      simp [passes]
    · have missed : (satisfy test).read fuel (atom :: input) held store =
          (.returned (.failure (atom :: input)), store) := by
        rw [read_primitive]
        simp [Primitive.read, passes]
      refine (Run.bind_of_returned missed).trans ?_
      simp [passes]

theorem read_many_satisfy (test : Test) (input : Input) :
    (many (satisfy test)).read fuel input held store =
      (.returned (.success (.list ((input.takeWhile test).map .atom)) (input.dropWhile test)),
        store) := by
  rw [read_many]
  exact Run.bind_of_returned (readMany_satisfy test input (by omega))

/-- Writing characters one by one writes the text that they spell. -/
theorem write_many_satisfy (test : Test) (content : Text) (rest : Input) :
    (many (satisfy test)).write fuel (.list (Value.spell content)) rest held store =
      (.returned (content.atoms ++ rest), store) := by
  rw [write_many]
  induction content with
  | nil => rfl
  | cons character content ih =>
    refine (Run.bind_of_returned ih).trans ?_
    rw [write_primitive]
    rfl

theorem takeWhile_atoms (charClass : AsciiClass) (text : Text) :
    (text.atoms.takeWhile (Test.inClass charClass)).map .atom =
      Value.spell (text.takeWhile charClass.contains) := by
  rw [Text.atoms, List.takeWhile_map, List.map_map]
  rfl

theorem dropWhile_atoms (charClass : AsciiClass) (text : Text) :
    text.atoms.dropWhile (Test.inClass charClass) =
      Text.atoms (text.dropWhile charClass.contains) := by
  rw [Text.atoms, List.dropWhile_map]
  rfl

theorem read_digit (digit : Char) (text : Text) :
    (satisfy (Test.inClass .digit)).read fuel (Text.atoms (digit :: text)) held store =
      (.returned (if digit.isDigit then .success (.char digit) (Text.atoms text)
        else .failure (Text.atoms (digit :: text))), store) := by
  rw [read_primitive]
  rfl

/-- Where the first digit is missing there are no digits. -/
theorem read_digits_of_failure {input : Input}
    (missed : (satisfy (Test.inClass .digit)).read fuel input held store =
      (.returned (.failure input), store)) :
    digits.read fuel input held store = (.returned (.failure input), store) := by
  rw [digits, read_adapt, many1, read_adapt, read_sequence]
  exact Run.onSuccess_of_failure (Run.onSuccess_of_failure (Run.onSuccess_of_failure missed))

/-- A first digit is followed by all the digits after it. -/
theorem read_digits_cons {digit : Char} (isDigit : digit.isDigit = true) (text : Text) :
    digits.read fuel (Text.atoms (digit :: text)) held store =
      (.returned (.success (.text (digit :: text.takeWhile Char.isDigit))
        (Text.atoms (text.dropWhile Char.isDigit))), store) := by
  have found := @read_digit fuel held store digit text
  rw [if_pos isDigit] at found
  have others := @read_many_satisfy fuel held store (Test.inClass .digit) (Text.atoms text)
  rw [takeWhile_atoms .digit, dropWhile_atoms .digit] at others
  have pair : (sequence (satisfy (Test.inClass .digit)) (many (satisfy (Test.inClass .digit)))).read
      fuel (Text.atoms (digit :: text)) held store =
        (.returned (.success (.pair (.char digit)
          (.list (Value.spell (text.takeWhile Char.isDigit))))
            (Text.atoms (text.dropWhile Char.isDigit))), store) := by
    rw [read_sequence]
    exact (Run.onSuccess_of_success found).trans (Run.onSuccess_of_success others)
  have spelled : Value.spelled? (.char digit :: Value.spell (text.takeWhile Char.isDigit)) =
      some (digit :: text.takeWhile Char.isDigit) :=
    Value.spelled?_spell (digit :: text.takeWhile Char.isDigit)
  rw [digits, read_adapt, many1, read_adapt]
  refine (Run.onSuccess_of_success (Run.onSuccess_of_success pair)).trans ?_
  simp [Prism.digitText, spelled]

/-- Digits are read as long as there are any, and at least one is needed. -/
theorem read_digits (text : Text) :
    digits.read fuel text.atoms held store =
      (.returned (if text.takeWhile Char.isDigit = [] then .failure text.atoms
        else .success (.text (text.takeWhile Char.isDigit))
          (Text.atoms (text.dropWhile Char.isDigit))), store) := by
  cases text with
  | nil => exact read_digits_of_failure (by rw [read_primitive]; rfl)
  | cons digit text =>
    by_cases isDigit : digit.isDigit = true
    · rw [List.takeWhile_cons_of_pos isDigit, List.dropWhile_cons_of_pos isDigit, if_neg (by simp)]
      exact read_digits_cons isDigit text
    · have missed := @read_digit fuel held store digit text
      rw [if_neg isDigit] at missed
      rw [List.takeWhile_cons_of_neg isDigit, if_pos rfl]
      exact read_digits_of_failure missed

/-- A non-empty run of digits is written as it is. -/
theorem write_digits {content : Text} (some : content ≠ []) (rest : Input) :
    digits.write fuel (.text content) rest held store =
      (.returned (content.atoms ++ rest), store) := by
  cases content with
  | nil => exact absurd rfl some
  | cons digit content =>
    rw [digits, write_adapt, many1, write_adapt]
    change (sequence _ _).write fuel (.pair (.char digit) (.list (Value.spell content))) rest
      held store = _
    rw [write_sequence, Run.bind_of_returned (write_many_satisfy _ content rest), write_primitive]
    rfl

/-- The sign is a minus or nothing. -/
def signValue (negative : Bool) : Value := if negative then .present (.char '-') else .absent

theorem read_sign (text : Text) :
    (opt (symbol (.char '-'))).read fuel text.atoms held store =
      (.returned (.success (signValue text.isNegative) text.unsigned.atoms), store) := by
  rw [read_opt]
  cases text with
  | nil =>
    have missed : (symbol (.char '-')).read fuel (Text.atoms []) held store =
        (.returned (.failure []), store) := by
      rw [symbol, read_primitive]
      rfl
    exact Run.onFailure_of_failure (Run.onSuccess_of_failure missed)
  | cons first text =>
    by_cases minus : first = '-'
    · subst minus
      have found : (symbol (.char '-')).read fuel (Text.atoms ('-' :: text)) held store =
          (.returned (.success (.char '-') (Text.atoms text)), store) := by
        rw [symbol, read_primitive]
        rfl
      exact Run.onFailure_of_success (Run.onSuccess_of_success found)
    · have missed : (symbol (.char '-')).read fuel (Text.atoms (first :: text)) held store =
          (.returned (.failure (Text.atoms (first :: text))), store) := by
        rw [symbol, read_primitive]
        simp [Text.atoms, Primitive.read, Test.equals, minus]
      refine (Run.onFailure_of_failure (Run.onSuccess_of_failure missed)).trans ?_
      simp [signValue, Text.unsigned, Text.isNegative, minus]

/-- The sign and the digits are read before the type decides. -/
theorem read_numeral (text : Text) :
    (sequence (opt (symbol (.char '-'))) digits).read fuel text.atoms held store =
      (.returned (if text.leadingDigits = [] then .failure text.unsigned.atoms
        else .success (.pair (signValue text.isNegative) (.text text.leadingDigits))
          text.afterDigits.atoms), store) := by
  have found : digits.read fuel text.unsigned.atoms held store =
      (.returned (if text.leadingDigits = [] then .failure text.unsigned.atoms
        else .success (.text text.leadingDigits) text.afterDigits.atoms), store) :=
    read_digits text.unsigned
  rw [read_sequence, Run.onSuccess_of_success (read_sign text)]
  by_cases none : text.leadingDigits = []
  · rw [if_pos none] at found ⊢
    exact Run.onSuccess_of_failure found
  · rw [if_neg none] at found ⊢
    exact Run.onSuccess_of_success found

/-- A numeral is an integer when the type has its sign and holds the integer. -/
theorem preview_integral (type : IntegerType) (negative : Bool) {content : Text}
    (all : Text.IsDigits content) (nonempty : content ≠ []) :
    (Prism.compose Prism.signedText (Prism.decimal type)).preview
        (.pair (signValue negative) (.text content)) =
      if (negative = true → type.signed = true) ∧ type.Holds (Text.integer negative content) then
        some (.number (Text.integer negative content)) else none := by
  cases content with
  | nil => exact absurd rfl nonempty
  | cons digit content =>
    cases negative with
    | true =>
      change Option.map _ (if type.signed then type.parseDigits? true (digit :: content) else none) = _
      cases signed : type.signed with
      | false => simp
      | true =>
        rw [if_pos rfl, IntegerType.parseDigits?_eq (fun _ => signed) all nonempty]
        by_cases holds : type.Holds (Text.integer true (digit :: content)) <;> simp [holds]
    | false =>
      have other : digit ≠ '-' := by
        rintro rfl
        exact absurd all.head (by decide)
      have parsed : type.parse? (digit :: content) = type.parseDigits? false (digit :: content) := by
        unfold IntegerType.parse?
        split
        · rename_i same
          exact absurd (List.cons.inj same).1 other
        · rfl
      change Option.map _ (type.parse? (digit :: content)) = _
      rw [parsed, IntegerType.parseDigits?_eq (by simp) all nonempty]
      by_cases holds : type.Holds (Text.integer false (digit :: content)) <;> simp [holds]

/-- Reading fails at the digits when there are none, and behind them when the type cannot hold the
integer. -/
theorem read_integral (type : IntegerType) (text : Text) :
    (integral type).read fuel text.atoms held store =
      (.returned (if text.leadingDigits = [] then .failure text.unsigned.atoms
        else if (text.isNegative = true → type.signed = true) ∧
            type.Holds (Text.integer text.isNegative text.leadingDigits) then
          .success (.number (Text.integer text.isNegative text.leadingDigits)) text.afterDigits.atoms
        else .failure text.afterDigits.atoms), store) := by
  have found := @read_numeral fuel held store text
  rw [integral, read_adapt]
  by_cases none : text.leadingDigits = []
  · rw [if_pos none] at found ⊢
    exact Run.onSuccess_of_failure found
  · rw [if_neg none] at found ⊢
    have all : Text.IsDigits text.leadingDigits := Text.isDigits_takeWhile _
    rw [Run.onSuccess_of_success found, preview_integral type text.isNegative all none]
    split <;> rfl

/-- Digits alone are reviewed without a sign. -/
theorem review_signedText {content : Text} (all : Text.IsDigits content) :
    Prism.signedText.review (.text content) = .pair .absent (.text content) := by
  cases content with
  | nil => rfl
  | cons digit content =>
    have other : digit ≠ '-' := by
      rintro rfl
      exact absurd all.head (by decide)
    simp [Prism.signedText, other]

/-- Writing an integer of the type writes its shortest numeral. -/
theorem write_integral {type : IntegerType} {value : Int} (holds : type.Holds value) (rest : Input) :
    (integral type).write fuel (.number value) rest held store =
      (.returned ((type.render value).atoms ++ rest), store) := by
  have nonempty : Nat.toDigits 10 value.natAbs ≠ [] := Nat.toDigits_ne_nil
  have written := @write_digits fuel held store _ nonempty rest
  have review : (Prism.compose Prism.signedText (Prism.decimal type)).review (.number value) =
      .pair (signValue (decide (value < 0))) (.text (Nat.toDigits 10 value.natAbs)) := by
    change Prism.signedText.review (.text (type.render value)) = _
    rw [IntegerType.render_eq holds]
    by_cases negative : value < 0
    · simp [negative, signValue, Prism.signedText]
    · simpa [negative, signValue] using review_signedText (Text.isDigits_toDigits value.natAbs)
  rw [integral, write_adapt, review, write_sequence, Run.bind_of_returned written,
    IntegerType.render_eq holds]
  by_cases negative : value < 0
  · simp [negative, signValue, write_opt_present, symbol, write_primitive, Primitive.write?]
    rfl
  · simp [negative, signValue, write_opt_absent]

/-- The integer that the shortest numeral of a value denotes is the value. -/
theorem integer_toDigits (value : Int) :
    Text.integer (decide (value < 0)) (Nat.toDigits 10 value.natAbs) = value := by
  have number : Text.number (Nat.toDigits 10 value.natAbs) = value.natAbs :=
    Nat.ofDigitChars_ten_toDigits
  by_cases negative : value < 0
  · simp only [Text.integer, negative, decide_true, if_true, number]
    omega
  · simp only [Text.integer, negative, decide_false, Bool.false_eq_true, if_false, number]
    omega

theorem render_eq_sign {type : IntegerType} {value : Int} (holds : type.Holds value) :
    type.render value = Text.sign (decide (value < 0)) ++ Nat.toDigits 10 value.natAbs := by
  rw [IntegerType.render_eq holds]
  by_cases negative : value < 0 <;> simp [negative, Text.sign]

/-- A negative integer is held by signed types only. -/
theorem signed_of_negative {type : IntegerType} {value : Int} (holds : type.Holds value)
    (negative : value < 0) : type.signed = true := by
  have lower := holds.1
  cases signed : type.signed with
  | true => rfl
  | false =>
    simp only [IntegerType.least, signed, Bool.false_eq_true, if_false] at lower
    omega

/-- A written integer is read back exactly when no digit follows it. -/
theorem read_render_iff {type : IntegerType} {value : Int} (holds : type.Holds value) (rest : Text) :
    (integral type).read fuel (Text.atoms (type.render value ++ rest)) held store =
        (.returned (.success (.number value) rest.atoms), store) ↔ ¬ rest.StartsWithDigit := by
  have all := Text.isDigits_toDigits value.natAbs
  have nonempty : Nat.toDigits 10 value.natAbs ≠ [] := Nat.toDigits_ne_nil
  rw [render_eq_sign holds, List.append_assoc, read_integral,
    Text.isNegative_sign_append _ all nonempty, Text.unsigned_sign_append _ all nonempty,
    Text.leadingDigits_sign_append _ all nonempty, Text.afterDigits_sign_append _ all nonempty,
    if_neg (by simp)]
  constructor
  · intro found
    rw [← Text.dropWhile_eq_iff, ← Text.atoms_inj]
    split at found
    · simp only [Prod.mk.injEq, Outcome.returned.injEq, Match.success.injEq] at found
      exact found.1.2
    · simp at found
  · intro stops
    have signed : decide (value < 0) = true → type.signed = true := fun negative =>
      signed_of_negative holds (of_decide_eq_true negative)
    rw [Text.takeWhile_eq_nil stops, List.append_nil, integer_toDigits, if_pos ⟨signed, holds⟩,
      (Text.dropWhile_eq_iff rest).mpr stops]

/-- A numeral is the shortest one for its integer when it is canonical, and a minus sign stands before
no zero. -/
theorem render_integer_iff {type : IntegerType} {negative : Bool} {content : Text}
    (all : Text.IsDigits content) (nonempty : content ≠ [])
    (holds : type.Holds (Text.integer negative content)) :
    type.render (Text.integer negative content) = Text.sign negative ++ content ↔
      (content = ['0'] ∧ negative = false) ∨ content.head? ≠ some '0' := by
  have shortest := Text.toDigits_number_eq_iff all nonempty
  have magnitude : (Text.integer negative content).natAbs = Text.number content := by
    cases negative <;> simp [Text.integer]
  rw [render_eq_sign holds, magnitude]
  cases negative with
  | false =>
    have positive : ¬ Text.integer false content < 0 := by
      simp only [Text.integer, Bool.false_eq_true, if_false]
      omega
    simpa [positive, Text.sign, Text.Canonical] using shortest
  | true =>
    by_cases zero : Text.number content = 0
    · have positive : ¬ Text.integer true content < 0 := by simp [Text.integer, zero]
      have leading := Text.head?_of_number_eq_zero all nonempty zero
      simp [positive, Text.sign, zero, leading]
    · have below : Text.integer true content < 0 := by
        simp only [Text.integer, if_true]
        omega
      have several : content ≠ ['0'] := by
        rintro rfl
        exact zero rfl
      simpa [below, Text.sign, several, Text.Canonical] using shortest

/-- The grammar of integers accepts exactly the numerals of the type. It fails at the digits when there
are none and behind them when the type has no such integer. A written integer is read back unless a
digit follows it, and a numeral that was read is written back when it is canonical. -/
theorem integral_exact (type : IntegerType) :
    (∀ (text : Text) fuel held store,
      (text.leadingDigits = [] → (integral type).read fuel text.atoms held store =
        (.returned (.failure text.unsigned.atoms), store)) ∧
      (text.leadingDigits ≠ [] →
        ((text.isNegative = true ∧ type.signed = false) ∨
          ¬ type.Holds (Text.integer text.isNegative text.leadingDigits) →
            (integral type).read fuel text.atoms held store =
              (.returned (.failure text.afterDigits.atoms), store)) ∧
        (¬ ((text.isNegative = true ∧ type.signed = false) ∨
          ¬ type.Holds (Text.integer text.isNegative text.leadingDigits)) →
            (integral type).read fuel text.atoms held store =
              (.returned (.success (.number (Text.integer text.isNegative text.leadingDigits))
                text.afterDigits.atoms), store)))) ∧
    (∀ value, type.Holds value → ∀ (rest : Text) fuel held store, ∃ text : Text,
      (integral type).write fuel (.number value) rest.atoms held store =
        (.returned text.atoms, store) ∧
      ((integral type).read fuel text.atoms held store =
        (.returned (.success (.number value) rest.atoms), store) ↔ ¬ rest.StartsWithDigit)) ∧
    ∀ (text : Text) value rest fuel held store after,
      (integral type).read fuel text.atoms held store =
        (.returned (.success value rest), after) →
      ∃ back, (integral type).write fuel value rest held after = (.returned back, after) ∧
        (back = text.atoms ↔ (text.leadingDigits = ['0'] ∧ text.isNegative = false) ∨
          text.leadingDigits.head? ≠ some '0') := by
  refine ⟨?_, ?_, ?_⟩
  · intro text fuel held store
    rw [read_integral]
    refine ⟨fun none => by rw [if_pos none], fun some => ⟨fun refused => ?_, fun accepted => ?_⟩⟩
    · rw [if_neg some, if_neg]
      rintro ⟨sign, holds⟩
      rcases refused with ⟨negative, unsigned⟩ | beyond
      · simp [sign negative] at unsigned
      · exact beyond holds
    · rw [if_neg some, if_pos]
      simp only [not_or, not_and, Bool.not_eq_false, Decidable.not_not] at accepted
      exact accepted
  · intro value holds rest fuel held store
    refine ⟨type.render value ++ rest, ?_, read_render_iff holds rest⟩
    rw [write_integral holds, Text.atoms_append]
  · intro text value rest fuel held store after found
    rw [read_integral] at found
    split at found
    · simp at found
    · rename_i nonempty
      split at found
      · rename_i accepted
        simp only [Prod.mk.injEq, Outcome.returned.injEq, Match.success.injEq] at found
        obtain ⟨⟨rfl, rfl⟩, rfl⟩ := found
        refine ⟨_, write_integral accepted.2 _, ?_⟩
        rw [← Text.atoms_append, Text.atoms_inj,
          ← render_integer_iff text.isDigits_leadingDigits nonempty accepted.2]
        have split := text.sign_append_leadingDigits
        rw [← List.append_assoc] at split
        constructor
        · intro same
          exact List.append_cancel_right (same.trans split.symm)
        · intro same
          rw [same, split]
      · simp at found

/-- The least integer of eight bits is read, and the one below it fails behind its digits. -/
theorem integral_exact_at_least :
    (integral ⟨.bits8, true⟩).read 0 (Text.atoms ['-', '1', '2', '8', ';']) ∅
        (Store.new .unlimited) =
      (.returned (.success (.number (-128)) (Text.atoms [';'])), Store.new .unlimited) ∧
    (integral ⟨.bits8, true⟩).read 0 (Text.atoms ['-', '1', '2', '9', ';']) ∅
        (Store.new .unlimited) =
      (.returned (.failure (Text.atoms [';'])), Store.new .unlimited) :=
  ⟨((integral_exact ⟨.bits8, true⟩).1 ['-', '1', '2', '8', ';'] 0 ∅ _).2 (by decide) |>.2 (by decide),
    ((integral_exact ⟨.bits8, true⟩).1 ['-', '1', '2', '9', ';'] 0 ∅ _).2 (by decide) |>.1 (by decide)⟩

end Grammar

end TwoWayGrammar
