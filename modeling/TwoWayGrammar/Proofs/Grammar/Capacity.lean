import TwoWayGrammar.Grammar.Dependence
import TwoWayGrammar.Proofs.Decimal.Integral
import TwoWayGrammar.Proofs.Grammar.Counting

/-! Counted reading asks for room for all its items before it reads the first one. -/

namespace TwoWayGrammar

/-- The count in front of a text has digits and no sign, and 64 bits hold it. -/
def Text.count? (text : Text) : Option Nat :=
  if text.leadingDigits ≠ [] ∧ text.isNegative = false ∧
      Text.number text.leadingDigits < Width.bits64.words then
    some (Text.number text.leadingDigits)
  else none

theorem Text.count?_eq_some_iff {text : Text} {count : Nat} :
    text.count? = some count ↔ text.leadingDigits ≠ [] ∧ text.isNegative = false ∧
      Text.number text.leadingDigits = count ∧ count < Width.bits64.words := by
  rw [Text.count?, Option.ite_none_right_eq_some, Option.some_inj]
  constructor
  · rintro ⟨⟨digits, unsigned, fits⟩, rfl⟩
    exact ⟨digits, unsigned, rfl, fits⟩
  · rintro ⟨digits, unsigned, rfl, fits⟩
    exact ⟨⟨digits, unsigned, fits⟩, rfl⟩

namespace Grammar

variable {held : AddressSet} {store : Store} {body grammar : Grammar} {fuel count : Nat}
  {capacity : Capacity} {input behind left : Input} {asked : Option Nat} {text : Text}

section Numerals

/-- Unsigned integers of 64 bits are all the counts. -/
theorem accepts_count_iff (text : Text) :
    ((text.isNegative = true → (⟨.bits64, false⟩ : IntegerType).signed = true) ∧
      (⟨.bits64, false⟩ : IntegerType).Holds (Text.integer text.isNegative text.leadingDigits)) ↔
    text.isNegative = false ∧ Text.number text.leadingDigits < Width.bits64.words := by
  have holds (number : Nat) :
      (⟨.bits64, false⟩ : IntegerType).Holds number ↔ number < Width.bits64.words := by
    simp only [IntegerType.Holds, IntegerType.least, IntegerType.greatest, Width.words,
      Bool.false_eq_true, if_false]
    omega
  cases text.isNegative with
  | true => simp
  | false => simpa [Text.integer] using holds (Text.number text.leadingDigits)

theorem read_integral_of_count (counts : text.count? = some count) :
    (integral ⟨.bits64, false⟩).read fuel text.atoms held store =
      (.returned (.success (.number count) text.afterDigits.atoms), store) := by
  obtain ⟨digits, unsigned, rfl, fits⟩ := Text.count?_eq_some_iff.mp counts
  have accepted := (accepts_count_iff text).mpr ⟨unsigned, fits⟩
  rw [read_integral, if_neg digits, if_pos accepted, Text.integer, unsigned, if_neg Bool.false_ne_true]

theorem read_integral_of_count_none (missing : text.count? = none) :
    ∃ left, (integral ⟨.bits64, false⟩).read fuel text.atoms held store =
      (.returned (.failure left), store) := by
  rw [read_integral]
  by_cases none : text.leadingDigits = []
  · exact ⟨_, by rw [if_pos none]⟩
  · have refused : ¬ (text.isNegative = false ∧ Text.number text.leadingDigits < Width.bits64.words) :=
      fun fits => by simp [Text.count?, none, fits] at missing
    exact ⟨_, by rw [if_neg none, if_neg (mt (accepts_count_iff text).mp refused)]⟩

end Numerals

/-- A numeral of 64 bits in front of as many items as it counts. -/
def countedItems (capacity : Capacity) (body : Grammar) (extract : Value → Value)
    (captured : AddressSet) : Grammar :=
  dependent (integral ⟨.bits64, false⟩) (counted capacity body) extract captured

/-- The body is read fewer times than the count, one reading behind the other, and then it fails. -/
def FallsShort (held : AddressSet) (store : Store) (body : Grammar) (count : Nat) (input left : Input) :
    Prop :=
  ∃ values rest middle after, Reaches held store body input values rest middle ∧
    Finds held middle body rest (.failure left) after ∧ values.length < count

/-- Reading that asks for room for the items in front of it, if it comes to ask at all. -/
structure AsksFor (held : AddressSet) (store : Store) (capacity : Capacity) (body grammar : Grammar)
    (input behind : Input) (asked : Option Nat) : Prop where
  /-- Too few items within the capacity are a failure, which shows what the body has shown. -/
  fails : ∀ count ∈ asked, count ≤ capacity.items → ∀ left, FallsShort held store body count behind left →
    ∃ after, Finds held store grammar input (.failure left) after
  /-- There is a match exactly when the capacity is not exceeded. -/
  answers_iff : (∃ found after, Finds held store grammar input found after) ↔
    ∀ count ∈ asked, count ≤ capacity.items
  /-- Beyond the capacity reading stops before it has looked at the items. -/
  stops : ∀ count ∈ asked, capacity.items < count → ∀ fuel,
    grammar.read fuel input held store = (.stopped (.overlong count), store)

/-- Reading that stops has no match, so it is enough to find one within the capacity. -/
theorem asksFor_of_answers
    (fails : ∀ count ∈ asked, count ≤ capacity.items → ∀ left,
      FallsShort held store body count behind left →
        ∃ after, Finds held store grammar input (.failure left) after)
    (answers : (∀ count ∈ asked, count ≤ capacity.items) →
      ∃ found after, Finds held store grammar input found after)
    (stops : ∀ count ∈ asked, capacity.items < count → ∀ fuel,
      grammar.read fuel input held store = (.stopped (.overlong count), store)) :
    AsksFor held store capacity body grammar input behind asked := by
  refine ⟨fails, ⟨?_, answers⟩, stops⟩
  rintro ⟨found, after, fuel, returned⟩ count member
  refine Nat.not_lt.mp fun beyond => ?_
  rw [stops count member beyond] at returned
  simp at returned

/-- A grammar that reads like another one, with any fuel, asks for the same. -/
theorem AsksFor.of_read_eq {other : Grammar} {between : Input}
    (asks : AsksFor held store capacity body grammar between behind asked)
    (same : ∀ fuel, other.read fuel input held store = grammar.read fuel between held store) :
    AsksFor held store capacity body other input behind asked := by
  have finds (found : Match Value) (after : Store) :
      Finds held store other input found after ↔ Finds held store grammar between found after := by
    simp only [Finds, same]
  refine ⟨?_, ?_, ?_⟩
  · simpa only [finds] using asks.fails
  · simpa only [finds] using asks.answers_iff
  · simpa only [same] using asks.stops

theorem finds_replicate_of_fallsShort (fits : count ≤ capacity.items)
    (short : FallsShort held store body count input left) :
    ∃ after, Finds held store (replicate capacity count body) input (.failure left) after := by
  obtain ⟨values, rest, middle, after, reaches, fails, fewer⟩ := short
  exact (countsAlong_of_reaches reaches fails).fails capacity count fits fewer

/-- The readings of the body are enough for the count or fall short of it. -/
theorem exists_finds_replicate (consumes : Consumes held store body) (returns : Returns held store body)
    (fits : count ≤ capacity.items) (input : Input) :
    ∃ found after, Finds held store (replicate capacity count body) input found after := by
  obtain ⟨values, rest, left, middle, after, reaches, fails⟩ := exists_reaches consumes returns input
  rcases Nat.lt_or_ge values.length count with fewer | enough
  · obtain ⟨last, short⟩ := finds_replicate_of_fallsShort fits ⟨_, _, _, _, reaches, fails, fewer⟩
    exact ⟨_, last, short⟩
  · obtain ⟨between, last, finds, -⟩ :=
      (countsAlong_of_reaches reaches fails).succeeds capacity count fits enough
    exact ⟨_, last, finds⟩

theorem asksFor_replicate (consumes : Consumes held store body) (returns : Returns held store body)
    (capacity : Capacity) (count : Nat) (input : Input) :
    AsksFor held store capacity body (replicate capacity count body) input input (some count) := by
  refine asksFor_of_answers ?_ ?_ ?_
  · rintro _ ⟨⟩ fits left short
    exact finds_replicate_of_fallsShort fits short
  · intro fits
    exact exists_finds_replicate consumes returns (fits count rfl) input
  · rintro _ ⟨⟩ beyond fuel
    rw [read_replicate, if_pos beyond]
    rfl

/-- Behind a numeral the items are read as often as it counts. -/
theorem read_countedItems {extract : Value → Value} {captured : AddressSet}
    (counts : text.count? = some count) :
    (countedItems capacity body extract captured).read fuel text.atoms held store =
      (replicate capacity count body).read fuel text.afterDigits.atoms held store := by
  obtain ⟨-, -, -, fits⟩ := Text.count?_eq_some_iff.mp counts
  rw [countedItems, read_dependent, Run.onSuccess_of_success (read_integral_of_count counts), counted,
    Value.count_number fits]

theorem asksFor_countedItems (consumes : Consumes held store body) (returns : Returns held store body)
    (capacity : Capacity) (extract : Value → Value) (captured : AddressSet) (text : Text) :
    AsksFor held store capacity body (countedItems capacity body extract captured) text.atoms
      text.afterDigits.atoms text.count? := by
  cases counts : text.count? with
  | none =>
    refine asksFor_of_answers (by simp) (fun _ => ?_) (by simp)
    obtain ⟨left, missing⟩ := @read_integral_of_count_none held store 0 text counts
    refine ⟨.failure left, store, 0, ?_⟩
    rw [countedItems, read_dependent]
    exact Run.onSuccess_of_failure missing
  | some count =>
    have asks := asksFor_replicate consumes returns capacity count text.afterDigits.atoms
    exact asks.of_read_eq fun fuel => read_countedItems counts

/-- Over a body that consumes and always comes to a match, counted reading asks for its count, and reading
behind a numeral asks for what the numeral counts, on every text. -/
theorem counted_reading_asks (consumes : Consumes held store body) (returns : Returns held store body) :
    (∀ capacity count input,
      AsksFor held store capacity body (replicate capacity count body) input input (some count)) ∧
    ∀ capacity extract captured (text : Text),
      AsksFor held store capacity body (countedItems capacity body extract captured) text.atoms
        text.afterDigits.atoms text.count? :=
  ⟨asksFor_replicate consumes returns, asksFor_countedItems consumes returns⟩

/-- Three items are asked for where there are two, and that is a failure at the end of the text. -/
theorem counted_reading_asks_three :
    let store := Store.new .unlimited
    let items := countedItems .bytes element (Value.lengthIn ⟨.bits64, false⟩) ∅
    Consumes ∅ store element ∧ Returns ∅ store element ∧
    FallsShort ∅ store element 3 [.char 'a', .char 'b'] [] ∧
    (∃ after, Finds ∅ store (replicate .bytes 3 element) [.char 'a', .char 'b'] (.failure []) after) ∧
    ∃ after, Finds ∅ store items (Text.atoms ['3', 'a', 'b']) (.failure []) after := by
  intro store items
  have consumes : Consumes ∅ store element := consumes_primitive _ trivial
  have returns : Returns ∅ store element := returns_primitive _
  have short : FallsShort ∅ store element 3 [.char 'a', .char 'b'] [] :=
    ⟨[.char 'a', .char 'b'], [], store, store, ⟨0, .further rfl (.further rfl (.none store []))⟩, ⟨0, rfl⟩,
      by decide⟩
  obtain ⟨counts, numerals⟩ := counted_reading_asks consumes returns
  refine ⟨consumes, returns, short, ?_, ?_⟩
  · exact (counts .bytes 3 _).fails 3 rfl (by decide) [] short
  · exact (numerals .bytes _ ∅ ['3', 'a', 'b']).fails 3 rfl (by decide) [] short

/-- Not one item is there, and the greatest count of 64 bits is no failed match. Reading stops at the count,
and so it does where the count is read from the text, whatever the capacity of the lists. -/
theorem greatest_count_stops :
    let store := Store.new .unlimited
    let count := 18446744073709551615
    let items (capacity : Capacity) :=
      countedItems capacity element (Value.lengthIn ⟨.bits64, false⟩) ∅
    Consumes ∅ store element ∧ Returns ∅ store element ∧
    FallsShort ∅ store element count [] [] ∧
    (¬ ∃ found after, Finds ∅ store (replicate .bytes count element) [] found after) ∧
    (¬ ∃ found after,
      Finds ∅ store (items .bytes) (Text.atoms "18446744073709551615".toList) found after) ∧
    ∀ capacity fuel, (items capacity).read fuel (Text.atoms "18446744073709551615".toList) ∅ store =
      (.stopped (.overlong count), store) := by
  intro store count items
  have consumes : Consumes ∅ store element := consumes_primitive _ trivial
  have returns : Returns ∅ store element := returns_primitive _
  have short : FallsShort ∅ store element count [] [] :=
    ⟨[], [], store, store, reaches_none _ _ _, ⟨0, rfl⟩, by decide⟩
  have counts : Text.count? "18446744073709551615".toList = some count := by decide
  have beyond (capacity : Capacity) : capacity.items < count :=
    Nat.lt_trans capacity.bounded (by decide)
  have asks := asksFor_replicate consumes returns .bytes count []
  have numeral (capacity : Capacity) := asksFor_countedItems consumes returns capacity
    (Value.lengthIn ⟨.bits64, false⟩) ∅ "18446744073709551615".toList
  rw [counts] at numeral
  refine ⟨consumes, returns, short, fun answers => ?_, fun answers => ?_,
    fun capacity => (numeral capacity).stops count rfl (beyond capacity)⟩
  · exact Nat.not_le.mpr (beyond .bytes) (asks.answers_iff.mp answers count rfl)
  · exact Nat.not_le.mpr (beyond .bytes) ((numeral .bytes).answers_iff.mp answers count rfl)

end Grammar

end TwoWayGrammar
