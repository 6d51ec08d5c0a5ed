import TwoWayGrammar.Proofs.Codec.Letters
import TwoWayGrammar.Proofs.Grammar.Row
import TwoWayGrammar.Proofs.Law.WriteAfterRead

/-! An empty text leaves its zero in front of what follows, and there the zero becomes a leading zero of the
next length. -/

namespace TwoWayGrammar

/-- Several texts as a list. -/
def Value.ofTexts (contents : List Text) : Value := .list (contents.map .text)

theorem Value.ofTexts_inj (contents others : List Text) :
    Value.ofTexts contents = Value.ofTexts others ↔ contents = others := by
  rw [Value.ofTexts, Value.ofTexts, Value.list.injEq]
  exact List.map_inj_right fun _ _ same => Atom.word.inj (Value.atom.inj same)

namespace CountedText

/-- The text behind its length. -/
def encode (content : Text) : Text := Nat.toDigits 10 content.length ++ content

theorem encode_ne_nil (content : Text) : encode content ≠ [] :=
  List.append_ne_nil_of_left_ne_nil Nat.toDigits_ne_nil content

/-- Texts that can be counted and are written in letters. -/
structure Fits (content : Text) : Prop where
  letters : content.IsLetters
  small : content.length < Width.bits32.words

/-- Empty texts are lost before another one, and the last text stays. -/
def surviving (contents : List Text) : List Text :=
  contents.dropLast.filter (· ≠ []) ++ contents.getLast?.toList

theorem surviving_cons_cons (first second : Text) (others : List Text) :
    surviving (first :: second :: others) =
      if first = [] then surviving (second :: others)
      else first :: surviving (second :: others) := by
  rw [surviving, List.dropLast_cons_cons, List.getLast?_cons_cons, List.filter_cons]
  split <;> simp_all [surviving]

/-- Nothing is lost when no empty text stands before another one. -/
theorem surviving_eq_self_iff (contents : List Text) :
    surviving contents = contents ↔ ∀ content ∈ contents.dropLast, content ≠ [] := by
  have whole : contents.dropLast ++ contents.getLast?.toList = contents := by
    cases contents with
    | nil => rfl
    | cons first others =>
      rw [List.getLast?_eq_some_getLast (List.cons_ne_nil _ _)]
      exact List.dropLast_concat_getLast _
  calc surviving contents = contents
      ↔ surviving contents = contents.dropLast ++ contents.getLast?.toList := by rw [whole]
    _ ↔ contents.dropLast.filter (· ≠ []) = contents.dropLast := List.append_left_inj _
    _ ↔ ∀ content ∈ contents.dropLast, content ≠ [] := by simp [List.filter_eq_self]

/-- Zeros in front do not change the number. -/
theorem number_zeros_append (zeros : Nat) (digits : Text) :
    Text.number (List.replicate zeros '0' ++ digits) = Text.number digits := by
  induction zeros with
  | zero => rfl
  | succ zeros ih => rw [List.replicate_succ, List.cons_append, Text.number_zero_cons, ih]

end CountedText

namespace Grammar

open CountedText

variable {fuel : Nat} {held : AddressSet} {store : Store} {content numeral : Text}

/-- A length and as many letters. Written is the length of the text. -/
def countedText : Grammar :=
  dependent (integral ⟨.bits32, false⟩) countedLetters (Value.lengthIn ⟨.bits32, false⟩) ∅

theorem holds_length (small : content.length < Width.bits32.words) :
    IntegerType.Holds ⟨.bits32, false⟩ content.length := by
  rw [Width.words] at small
  simp only [IntegerType.Holds, IntegerType.least, IntegerType.greatest, Width.words,
    Bool.false_eq_true, if_false]
  omega

/-- Any numeral of the length is read with the letters that it counts, when it ends where they begin. -/
theorem read_countedText (fits : Fits content) (all : numeral.IsDigits) (nonempty : numeral ≠ [])
    (count : numeral.number = content.length) {rest : Text}
    (ends : ¬ Text.StartsWithDigit (content ++ rest)) :
    countedText.read fuel (Text.atoms (numeral ++ (content ++ rest))) held store =
      (.returned (.success (.text content) rest.atoms), store) := by
  have found := @read_integral fuel held store ⟨.bits32, false⟩ (numeral ++ (content ++ rest))
  have positive : Text.isNegative (numeral ++ (content ++ rest)) = false :=
    Text.isNegative_sign_append false all nonempty _
  have leading : Text.leadingDigits (numeral ++ (content ++ rest)) = numeral := by
    have split := Text.leadingDigits_sign_append false all nonempty (content ++ rest)
    rwa [Text.takeWhile_eq_nil ends, List.append_nil] at split
  have after : Text.afterDigits (numeral ++ (content ++ rest)) = content ++ rest :=
    (Text.afterDigits_sign_append false all nonempty _).trans ((Text.dropWhile_eq_iff _).mpr ends)
  have integer : Text.integer false numeral = content.length := by simp [Text.integer, count]
  rw [leading, after, positive, if_neg nonempty, integer,
    if_pos ⟨by simp, holds_length fits.small⟩] at found
  rw [countedText, read_dependent, Run.onSuccess_of_success found]
  exact read_countedLetters fits.letters fits.small rest

/-- The length is written in front of the letters. -/
theorem write_countedText (small : content.length < Width.bits32.words) (rest : Text) :
    countedText.write fuel (.text content) rest.atoms held store =
      (.returned (Text.atoms (encode content ++ rest)), store) := by
  have length : Value.lengthIn ⟨.bits32, false⟩ (.text content) = .number content.length := by
    have same : IntegerType.wrap ⟨.bits32, false⟩ content.length = content.length := by
      rw [Width.words] at small
      rw [IntegerType.wrap, if_neg (by simp), Width.words]
      omega
    rw [Value.lengthIn, same]
  have numeral : IntegerType.render ⟨.bits32, false⟩ content.length =
      Nat.toDigits 10 content.length := by
    rw [IntegerType.render_eq (holds_length small)]
    simp
  rw [countedText, write_dependent, length, Run.bind_of_returned (write_countedLetters content small _),
    write_integral (holds_length small), numeral, encode]
  simp only [Text.atoms_append, List.append_assoc]

/-- A text is read back, also with zeros in front of its length, unless a digit stands where its letters
should. -/
theorem read_encode (zeros : Nat) (fits : Fits content) {rest : Text}
    (ends : ¬ (content = [] ∧ rest.StartsWithDigit)) :
    countedText.read fuel (Text.atoms (List.replicate zeros '0' ++ (encode content ++ rest))) held
      store = (.returned (.success (.text content) rest.atoms), store) := by
  have all : Text.IsDigits (List.replicate zeros '0' ++ Nat.toDigits 10 content.length) := by
    intro digit member
    rcases List.mem_append.mp member with zero | digit
    · rw [List.eq_of_mem_replicate zero]
      rfl
    · exact Text.isDigits_toDigits _ _ digit
  have count : Text.number (List.replicate zeros '0' ++ Nat.toDigits 10 content.length) =
      content.length := by
    rw [number_zeros_append]
    exact Nat.ofDigitChars_ten_toDigits
  have stops := mt (Text.startsWithDigit_letters_append fits.letters rest).mp ends
  have nonempty : List.replicate zeros '0' ++ Nat.toDigits 10 content.length ≠ [] := by
    simp [Nat.toDigits_ne_nil]
  have read := @read_countedText fuel held store _ _ fits all nonempty count _ stops
  rwa [List.append_assoc, ← List.append_assoc _ content rest] at read

/-- The loop over a row of texts reads on with zeros in front. The induction goes from text to text, and an
empty text before another one adds its zero to those in front. -/
theorem attempts_countedTexts (zeros : Nat) {first : Text} {others : List Text}
    (fits : ∀ content ∈ first :: others, Fits content) :
    Run.Attempts (countedText.read fuel) held store
      (Text.atoms (List.replicate zeros '0' ++ (first :: others).flatMap encode))
      ((surviving (first :: others)).map .text) [] store := by
  have here := fits first List.mem_cons_self
  induction others generalizing zeros first with
  | nil =>
    refine .further ?_ (.none store [])
    exact read_encode zeros here (by simp [Text.StartsWithDigit])
  | cons second others ih =>
    have following : ∀ content ∈ second :: others, Fits content := fun content member =>
      fits content (List.mem_cons_of_mem first member)
    rw [surviving_cons_cons, List.flatMap_cons]
    by_cases empty : first = []
    · subst empty
      have padded : List.replicate zeros '0' ++ (encode [] ++ (second :: others).flatMap encode) =
          List.replicate (zeros + 1) '0' ++ (second :: others).flatMap encode := by
        rw [List.replicate_succ', List.append_assoc]
        rfl
      rw [if_pos rfl, padded]
      exact ih (zeros + 1) following (following second List.mem_cons_self)
    · rw [if_neg empty]
      refine .further (read_encode zeros here fun both => empty both.1) ?_
      exact ih 0 following (following second List.mem_cons_self)

theorem length_surviving_le (contents : List Text) :
    (surviving contents).length ≤ contents.length := by
  rw [surviving, List.length_append]
  refine Nat.le_trans (Nat.add_le_add_right (List.length_filter_le _ _) _) ?_
  cases contents with
  | nil => exact Nat.le_refl 0
  | cons first others => simp [List.getLast?_eq_some_getLast]

/-- A row of texts is read but for the empty texts that stand before others. -/
theorem read_countedTexts {contents : List Text} (fits : ∀ content ∈ contents, Fits content) :
    (many countedText).read fuel (Text.atoms (contents.flatMap encode)) held store =
      (.returned (.success (.ofTexts (surviving contents)) []), store) := by
  have failed : countedText.read fuel (Text.atoms []) held store =
      (.returned (.failure []), store) := by
    have none := @read_integral fuel held store ⟨.bits32, false⟩ []
    rw [countedText, read_dependent]
    exact Run.onSuccess_of_failure none
  have chain : Run.Attempts (countedText.read fuel) held store
      (Text.atoms (contents.flatMap encode)) ((surviving contents).map .text) [] store := by
    cases contents with
    | nil => exact .none store _
    | cons first others => exact attempts_countedTexts 0 fits
  have row := length_le_length_row encode_ne_nil contents
  refine read_many_of_attempts chain failed ?_
  rw [Text.length_atoms, List.length_map]
  exact Nat.le_trans (length_surviving_le contents) row

/-- What is printed parses again but for the empty texts that stood before others. -/
theorem parseAll_of_print_countedTexts {contents : List Text}
    (fits : ∀ content ∈ contents, Fits content) :
    ((many countedText).print fuel (.ofTexts contents) >>= (many countedText).parseAll fuel) held
      store = (.returned (some (.ofTexts (surviving contents))), store) := by
  have writes (content : Text) (member : content ∈ contents) (rest : Text) :=
    @write_countedText fuel held store content (fits content member).small rest
  have written := write_many_row writes []
  rw [List.append_nil] at written
  exact (Run.bind_of_returned written).trans (parseAll_of_read (read_countedTexts fits))

/-- A text that is read back leaves what was behind it, so its zero has met no digit. -/
theorem not_startsWithDigit_of_read {rest : Text}
    (back : countedText.read fuel (Text.atoms (encode [] ++ rest)) held store =
      (.returned (.success (.text []) rest.atoms), store)) : ¬ rest.StartsWithDigit := by
  have found := @read_integral fuel held store ⟨.bits32, false⟩ (encode [] ++ rest)
  have after : Text.afterDigits (encode [] ++ rest) = rest.dropWhile Char.isDigit :=
    Text.afterDigits_sign_append false (Text.isDigits_toDigits 0) Nat.toDigits_ne_nil rest
  rw [countedText, read_dependent] at back
  obtain ⟨count, between, middle, numeral, letters⟩ := Run.success_of_onSuccess back
  have same : between = Text.atoms (rest.dropWhile Char.isDigit) := by
    rw [found, after] at numeral
    split at numeral
    · simp at numeral
    · split at numeral
      · simp only [Prod.mk.injEq, Outcome.returned.injEq, Match.success.injEq] at numeral
        exact numeral.1.2.symm
      · simp at numeral
  have suffix := read_leaves fuel _ between held middle _ store letters
  have short : rest.length ≤ (rest.dropWhile Char.isDigit).length := by
    simpa [same, Match.rest] using suffix.length_le
  exact (Text.dropWhile_eq_iff rest).mp ((List.dropWhile_sublist _).eq_of_length_le short)

/-- Rows of texts parse again as they were printed, but for the empty texts that stood before others, so
nothing is lost exactly when there are none. A single text is read back exactly when it has a letter or no
digit follows it. -/
theorem countedTexts_read_and_written (fuel : Nat) (held : AddressSet) (store : Store) :
    (∀ contents : List Text,
      (∀ content ∈ contents, content.IsLetters ∧ content.length < Width.bits32.words) →
        ((many countedText).print fuel (.ofTexts contents) >>= (many countedText).parseAll fuel)
            held store = (.returned (some (.ofTexts (surviving contents))), store) ∧
        (((many countedText).print fuel (.ofTexts contents) >>= (many countedText).parseAll fuel)
            held store = (.returned (some (.ofTexts contents)), store) ↔
          ∀ content ∈ contents.dropLast, content ≠ [])) ∧
    ∀ content rest : Text, content.IsLetters → content.length < Width.bits32.words →
      ∃ written : Text,
        countedText.write fuel (.text content) rest.atoms held store =
          (.returned written.atoms, store) ∧
        (countedText.read fuel written.atoms held store =
            (.returned (.success (.text content) rest.atoms), store) ↔
          content ≠ [] ∨ ¬ rest.StartsWithDigit) := by
  constructor
  · intro contents all
    have fits : ∀ content ∈ contents, Fits content := fun content member =>
      ⟨(all content member).1, (all content member).2⟩
    have parsed := @parseAll_of_print_countedTexts fuel held store contents fits
    refine ⟨parsed, ?_⟩
    rw [parsed, ← surviving_eq_self_iff]
    simp only [Prod.mk.injEq, Outcome.returned.injEq, Option.some.injEq, Value.ofTexts_inj, and_true]
  · intro content rest letters small
    refine ⟨encode content ++ rest, write_countedText small rest, fun back => ?_, fun ends => ?_⟩
    · by_cases empty : content = []
      · subst empty
        exact .inr (not_startsWithDigit_of_read back)
      · exact .inl empty
    · refine read_encode 0 ⟨letters, small⟩ ?_
      rintro ⟨empty, digit⟩
      exact ends.elim (fun some => some empty) fun none => none digit

/-- Of two empty texts the one before another text is lost and the last one stays. Two letters are read back
in front of a digit. -/
theorem countedTexts_read_and_written_four :
    let store := Store.new .unlimited
    let contents : List Text := [['a', 'b'], [], ['c'], []]
    (∀ content ∈ contents, content.IsLetters ∧ content.length < Width.bits32.words) ∧
    ((many countedText).print 0 (.ofTexts contents) >>= (many countedText).parseAll 0) ∅ store =
      (.returned (some (.ofTexts [['a', 'b'], ['c'], []])), store) ∧
    Text.IsLetters ['a', 'b'] ∧
    ∃ written : Text,
      countedText.write 0 (.text ['a', 'b']) (Text.atoms ['1']) ∅ store =
        (.returned written.atoms, store) ∧
      countedText.read 0 written.atoms ∅ store =
        (.returned (.success (.text ['a', 'b']) (Text.atoms ['1'])), store) := by
  intro store contents
  have fits : ∀ content ∈ contents, content.IsLetters ∧ content.length < Width.bits32.words := by
    decide
  have letters : Text.IsLetters ['a', 'b'] := by decide
  obtain ⟨rows, single⟩ := countedTexts_read_and_written 0 ∅ store
  obtain ⟨written, writes, reads⟩ := single ['a', 'b'] ['1'] letters (by decide)
  exact ⟨fits, (rows contents fits).1, letters, written, writes, reads.mpr (.inl (by simp))⟩

end Grammar

end TwoWayGrammar
