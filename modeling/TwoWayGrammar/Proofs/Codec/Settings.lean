import TwoWayGrammar.Proofs.Codec.Letters
import TwoWayGrammar.Proofs.Grammar.Row
import TwoWayGrammar.Proofs.Law.WriteAfterRead

namespace TwoWayGrammar

/-- A setting gives a key of letters an integer of 32 bits. -/
structure Setting where
  key : Text
  number : Int
  letters : key.IsLetters
  holds : IntegerType.Holds ⟨.bits32, true⟩ number

/-- An entry is the text of a setting, whose numeral has any number of leading zeros. -/
structure Entry where
  key : Text
  negative : Bool
  digits : Text
  letters : key.IsLetters
  all : digits.IsDigits
  nonempty : digits ≠ []
  holds : IntegerType.Holds ⟨.bits32, true⟩ (Text.integer negative digits)

namespace Entry

/-- The numeral stands between the equals sign and the semicolon. -/
def text (entry : Entry) : Text :=
  entry.key ++ '=' :: (Text.sign entry.negative ++ (entry.digits ++ [';']))

/-- The setting that an entry stands for. -/
def setting (entry : Entry) : Setting :=
  ⟨entry.key, Text.integer entry.negative entry.digits, entry.letters, entry.holds⟩

/-- The numeral has no leading zero, and no minus sign before a zero. -/
def Canonical (entry : Entry) : Prop :=
  (entry.digits = ['0'] ∧ entry.negative = false) ∨ entry.digits.head? ≠ some '0'

theorem text_append (entry : Entry) (rest : Text) : entry.text ++ rest =
    entry.key ++ '=' :: (Text.sign entry.negative ++ (entry.digits ++ ';' :: rest)) := by
  simp [text]

theorem text_ne_nil (entry : Entry) : entry.text ≠ [] := by
  simp [text]

end Entry

namespace Setting

/-- A key with its integer. -/
def value (setting : Setting) : Value := .pair (.text setting.key) (.number setting.number)

/-- The entry with the shortest numeral. -/
def entry (setting : Setting) : Entry where
  key := setting.key
  negative := decide (setting.number < 0)
  digits := Nat.toDigits 10 setting.number.natAbs
  letters := setting.letters
  all := Text.isDigits_toDigits _
  nonempty := Nat.toDigits_ne_nil
  holds := by rw [Grammar.integer_toDigits]; exact setting.holds

theorem setting_entry (setting : Setting) : setting.entry.setting = setting := by
  obtain ⟨key, number, letters, holds⟩ := setting
  simp [entry, Entry.setting, Grammar.integer_toDigits]

end Setting

/-- Several settings as a list. -/
def Value.ofSettings (settings : List Setting) : Value := .list (settings.map Setting.value)

namespace Entry

/-- The setting of an entry is written as the entry was when the numeral is canonical. -/
theorem text_entry_setting_iff (entry : Entry) :
    entry.setting.entry.text = entry.text ↔ entry.Canonical := by
  have numeral := Grammar.render_eq_sign entry.holds
  calc entry.setting.entry.text = entry.text
      ↔ IntegerType.render ⟨.bits32, true⟩ entry.setting.number ++ [';'] =
          Text.sign entry.negative ++ entry.digits ++ [';'] := by
        rw [setting, numeral]
        simp [text, Setting.entry]
    _ ↔ IntegerType.render ⟨.bits32, true⟩ entry.setting.number =
          Text.sign entry.negative ++ entry.digits := List.append_left_inj _
    _ ↔ entry.Canonical := Grammar.render_integer_iff entry.all entry.nonempty entry.holds

/-- A text splits into entries and a rest that no further entry begins. -/
structure Splits (text : Text) (entries : List Entry) (rest : Text) : Prop where
  joined : text = entries.flatMap Entry.text ++ rest
  ends : ∀ (entry : Entry) following, rest ≠ entry.text ++ following

theorem exists_splits (content : Text) : ∃ entries rest, Splits content entries rest := by
  obtain ⟨entries, rest, joined, ends⟩ := Grammar.exists_row text_ne_nil content
  exact ⟨entries, rest, joined, ends⟩

theorem splits_nil : Splits [] [] [] := ⟨rfl, fun entry following => by simp [text_append]⟩

/-- Entries in front of a text come in front of those that the text begins with. -/
theorem Splits.prepend {content rest : Text} {entries : List Entry}
    (splits : Splits content entries rest) (settings : List Setting) :
    Splits (settings.flatMap (fun value => value.entry.text) ++ content)
      (settings.map Setting.entry ++ entries) rest := by
  obtain ⟨rfl, ends⟩ := splits
  refine ⟨?_, ends⟩
  rw [List.flatMap_append, List.flatMap_map, List.append_assoc]

end Entry

namespace Grammar

variable {fuel : Nat} {held : AddressSet} {store after : Store} {body : Grammar} {value : Value}

/-- A key of letters with an integer of 32 bits behind it, each ended by its mark. -/
def setting : Grammar :=
  thenDiscard
    (sequence (thenDiscard letters (literal (.char '='))) (integral ⟨.bits32, true⟩))
    (literal (.char ';'))

/-- A mark behind a body is there or is missing. -/
theorem read_marked {input : Input} {text : Text}
    (found : body.read fuel input held store = (.returned (.success value text.atoms), after))
    (mark : Char) :
    (thenDiscard body (literal (.char mark))).read fuel input held store =
      (.returned (if text.head? = some mark then .success value (Text.atoms text.tail)
        else .failure text.atoms), after) := by
  rw [read_thenDiscard, Run.onSuccess_of_success found, read_primitive]
  cases text with
  | nil => rfl
  | cons first text =>
    by_cases same : first = mark
    · subst same
      simp [Text.atoms, Primitive.read, Run.onSuccess]
    · simp [Text.atoms, Primitive.read, Run.onSuccess, same]

theorem read_sequence_of_success {first second : Grammar} {input between rest : Input}
    {firstValue secondValue : Value} {middle : Store}
    (one : first.read fuel input held store = (.returned (.success firstValue between), middle))
    (two : second.read fuel between held middle = (.returned (.success secondValue rest), after)) :
    (sequence first second).read fuel input held store =
      (.returned (.success (.pair firstValue secondValue) rest), after) := by
  rw [read_sequence, Run.onSuccess_of_success one, Run.onSuccess_of_success two]
  rfl

/-- A key reaches as far as the letters do. -/
theorem read_key (text : Text) :
    (thenDiscard letters (literal (.char '='))).read fuel text.atoms held store =
      (.returned (if (text.dropWhile Char.isAlpha).head? = some '=' then
        .success (.text (text.takeWhile Char.isAlpha)) (Text.atoms (text.dropWhile Char.isAlpha).tail)
          else .failure (Text.atoms (text.dropWhile Char.isAlpha))), store) :=
  read_marked (read_letters text) '='

/-- A complete entry is read as its setting. -/
theorem read_setting (entry : Entry) (rest : Text) :
    setting.read fuel (Text.atoms (entry.text ++ rest)) held store =
      (.returned (.success entry.setting.value rest.atoms), store) := by
  obtain ⟨name, negative, digits, letters, all, nonempty, holds⟩ := entry
  have key := @read_key fuel held store
    (name ++ '=' :: (Text.sign negative ++ (digits ++ ';' :: rest)))
  rw [List.takeWhile_append_of_pos letters, List.dropWhile_append_of_pos letters,
    List.takeWhile_cons_of_neg (by decide), List.dropWhile_cons_of_neg (by decide),
    List.append_nil, List.head?_cons, if_pos rfl, List.tail_cons] at key
  have number := @read_integral fuel held store ⟨.bits32, true⟩
    (Text.sign negative ++ (digits ++ ';' :: rest))
  rw [Text.isNegative_sign_append _ all nonempty, Text.leadingDigits_sign_append _ all nonempty,
    Text.afterDigits_sign_append _ all nonempty, List.takeWhile_cons_of_neg (by decide),
    List.dropWhile_cons_of_neg (by decide), List.append_nil, if_neg nonempty,
    if_pos ⟨fun _ => rfl, holds⟩] at number
  rw [Entry.text_append, setting, read_marked (read_sequence_of_success key number),
    List.head?_cons, if_pos rfl]
  rfl

/-- Where no entry begins, reading an entry fails: at the key, at the numeral, or at the semicolon. -/
theorem read_setting_of_forall_ne {text : Text}
    (none : ∀ (entry : Entry) following, text ≠ entry.text ++ following) :
    ∃ left, setting.read fuel text.atoms held store = (.returned (.failure left), store) := by
  have key := @read_key fuel held store text
  by_cases equals : (text.dropWhile Char.isAlpha).head? = some '='
  · rw [if_pos equals] at key
    obtain ⟨(numeral : Text), split⟩ := List.head?_eq_some_iff.mp equals
    rw [split, List.tail_cons] at key
    have number := @read_integral fuel held store ⟨.bits32, true⟩ numeral
    have missing {left : Input} (failed : (integral ⟨.bits32, true⟩).read fuel numeral.atoms held store =
        (.returned (.failure left), store)) :
        setting.read fuel text.atoms held store = (.returned (.failure left), store) := by
      rw [setting, read_thenDiscard, read_sequence]
      exact Run.onSuccess_of_failure
        ((Run.onSuccess_of_success key).trans (Run.onSuccess_of_failure failed))
    by_cases nonempty : numeral.leadingDigits = []
    · rw [if_pos nonempty] at number
      exact ⟨_, missing number⟩
    rw [if_neg nonempty] at number
    by_cases holds : IntegerType.Holds ⟨.bits32, true⟩
        (Text.integer numeral.isNegative numeral.leadingDigits)
    · rw [if_pos ⟨fun _ => rfl, holds⟩] at number
      have marked := read_marked (read_sequence_of_success key number) ';'
      refine ⟨numeral.afterDigits.atoms, ?_⟩
      rw [setting, marked, if_neg]
      intro semicolon
      obtain ⟨following, rest⟩ := List.head?_eq_some_iff.mp semicolon
      -- Everything that an entry consists of has been found.
      refine none ⟨text.takeWhile Char.isAlpha, numeral.isNegative, numeral.leadingDigits,
        text.isLetters_takeWhile, numeral.isDigits_leadingDigits, nonempty, holds⟩ following ?_
      rw [Entry.text_append, ← rest, numeral.sign_append_leadingDigits, ← split,
        List.takeWhile_append_dropWhile]
    · rw [if_neg fun accepted => holds accepted.2] at number
      exact ⟨_, missing number⟩
  · rw [if_neg equals] at key
    refine ⟨Text.atoms (text.dropWhile Char.isAlpha), ?_⟩
    rw [setting, read_thenDiscard, read_sequence]
    exact Run.onSuccess_of_failure (Run.onSuccess_of_failure key)

/-- No entry begins another one, as reading takes the same from the same text. -/
theorem text_append_inj {first second : Entry} {rest others : Text}
    (same : first.text ++ rest = second.text ++ others) :
    first.text = second.text ∧ rest = others := by
  have one := @read_setting 0 ∅ (Store.new .unlimited) first rest
  have two := @read_setting 0 ∅ (Store.new .unlimited) second others
  rw [same, two] at one
  simp only [Prod.mk.injEq, Outcome.returned.injEq, Match.success.injEq, and_true] at one
  have left : rest = others := (Text.atoms_inj.mp one.2).symm
  subst left
  exact ⟨List.append_cancel_right same, rfl⟩

/-- A row of entries is read as their settings, up to where no further entry begins. -/
theorem read_settings {text rest : Text} {entries : List Entry}
    (splits : Entry.Splits text entries rest) :
    (many setting).read fuel text.atoms held store =
      (.returned (.success (.ofSettings (entries.map Entry.setting)) rest.atoms), store) := by
  obtain ⟨rfl, ends⟩ := splits
  obtain ⟨left, failed⟩ := @read_setting_of_forall_ne fuel held store rest ends
  rw [read_many_row Text.length_atoms Entry.text_ne_nil read_setting entries failed,
    Value.ofSettings, List.map_map]
  rfl

theorem write_marked (mark : Char) (value : Value) (rest : Text) :
    (thenDiscard body (literal (.char mark))).write fuel value rest.atoms =
      body.write fuel value (Text.atoms (mark :: rest)) := by
  rw [write_thenDiscard, write_primitive]
  rfl

/-- A setting is written as its entry. -/
theorem write_setting (value : Setting) (rest : Text) :
    setting.write fuel value.value rest.atoms held store =
      (.returned (Text.atoms (value.entry.text ++ rest)), store) := by
  rw [setting, write_marked, Setting.value, write_sequence,
    Run.bind_of_returned (write_integral value.holds _), ← Text.atoms_append, write_marked,
    write_letters, ← Text.atoms_append, Entry.text_append, render_eq_sign value.holds,
    List.append_assoc]
  rfl

/-- Entries with their numerals made canonical are the entries that they were when all were canonical. -/
theorem flatMap_entry_setting_iff (entries : List Entry) :
    (entries.map Entry.setting).flatMap (fun value => value.entry.text) = entries.flatMap Entry.text ↔
      ∀ entry ∈ entries, entry.Canonical := by
  induction entries with
  | nil => simp
  | cons entry entries ih =>
    rw [List.map_cons, List.flatMap_cons, List.flatMap_cons, List.forall_mem_cons, ← ih,
      ← entry.text_entry_setting_iff]
    exact ⟨text_append_inj, fun ⟨first, others⟩ => by rw [first, others]⟩

theorem write_settings (settings : List Setting) (rest : Text) :
    (many setting).write fuel (.ofSettings settings) rest.atoms held store =
      (.returned (Text.atoms (settings.flatMap (fun value => value.entry.text) ++ rest)), store) :=
  write_many_row (fun value _ => write_setting value) rest

/-- Written settings are read back, and after them the settings of the text behind them. -/
theorem read_written_settings {text rest : Text} {entries : List Entry}
    (splits : Entry.Splits text entries rest) (settings : List Setting) :
    (many setting).read fuel
        (Text.atoms (settings.flatMap (fun value => value.entry.text) ++ text)) held store =
      (.returned (.success (.ofSettings (settings ++ entries.map Entry.setting)) rest.atoms),
        store) := by
  have same : settings.map (Entry.setting ∘ Setting.entry) = settings :=
    (List.map_congr_left fun value _ => value.setting_entry).trans settings.map_id
  rw [read_settings (splits.prepend settings), List.map_append, List.map_map, same]

/-- Settings in front of any text are read back in front of what is read from the text alone, so what is
printed parses again. A text is read up to the first position where no complete entry begins, and what was
read is written back as it was exactly when every numeral on the way is canonical. -/
theorem settings_read_and_written (fuel : Nat) (held : AddressSet) (store : Store) :
    (∀ (settings : List Setting) (text : Text), ∃ (more : List Setting) (rest written : Text),
      (many setting).read fuel text.atoms held store =
        (.returned (.success (.ofSettings more) rest.atoms), store) ∧
      (many setting).write fuel (.ofSettings settings) text.atoms held store =
        (.returned written.atoms, store) ∧
      (many setting).read fuel written.atoms held store =
        (.returned (.success (.ofSettings (settings ++ more)) rest.atoms), store)) ∧
    (∀ settings : List Setting,
      ((many setting).print fuel (.ofSettings settings) >>= (many setting).parseAll fuel) held store =
        (.returned (some (.ofSettings settings)), store)) ∧
    (∀ text : Text, ∃ entries rest, Entry.Splits text entries rest) ∧
    ∀ text entries rest, Entry.Splits text entries rest →
      (many setting).read fuel text.atoms held store =
        (.returned (.success (.ofSettings (entries.map Entry.setting)) rest.atoms), store) ∧
      ∃ back : Text,
        (many setting).write fuel (.ofSettings (entries.map Entry.setting)) rest.atoms held store =
          (.returned back.atoms, store) ∧
        (back = text ↔ ∀ entry ∈ entries, entry.Canonical) := by
  refine ⟨?_, ?_, Entry.exists_splits, ?_⟩
  · intro settings text
    obtain ⟨entries, rest, splits⟩ := Entry.exists_splits text
    exact ⟨_, rest, _, read_settings splits, write_settings settings text,
      read_written_settings splits settings⟩
  · intro settings
    have written := @write_settings fuel held store settings []
    have read := @read_written_settings fuel held store _ _ _ Entry.splits_nil settings
    rw [List.append_nil] at written
    rw [List.append_nil, List.map_nil, List.append_nil] at read
    exact (Run.bind_of_returned written).trans (parseAll_of_read read)
  · intro text entries rest splits
    refine ⟨read_settings splits, _, write_settings _ rest, ?_⟩
    rw [splits.joined, List.append_left_inj, flatMap_entry_setting_iff]

/-- Two entries are read and a key without a number is left. The second numeral has a leading zero, so what is
written back is another text. -/
theorem settings_read_and_written_two :
    let store := Store.new .unlimited
    let entries : List Entry :=
      [⟨['a'], true, ['1'], by decide, by decide, by decide, by decide⟩,
        ⟨['b'], false, ['0', '7'], by decide, by decide, by decide, by decide⟩]
    let text : Text := ['a', '=', '-', '1', ';', 'b', '=', '0', '7', ';', 'c']
    Entry.Splits text entries ['c'] ∧
    (many setting).read 0 text.atoms ∅ store =
      (.returned (.success (.ofSettings (entries.map Entry.setting)) (Text.atoms ['c'])), store) ∧
    ∃ back : Text,
      (many setting).write 0 (.ofSettings (entries.map Entry.setting)) (Text.atoms ['c']) ∅ store =
        (.returned back.atoms, store) ∧ back ≠ text := by
  intro store entries text
  have splits : Entry.Splits text entries ['c'] := by
    refine ⟨rfl, fun entry following same => ?_⟩
    have equals : '=' ∈ entry.text ++ following := by simp [Entry.text]
    rw [← same] at equals
    exact absurd equals (by decide)
  obtain ⟨_, _, _, reads⟩ := settings_read_and_written 0 ∅ store
  obtain ⟨read, back, written, same⟩ := reads text entries ['c'] splits
  refine ⟨splits, read, back, written, mt same.mp fun canonical => ?_⟩
  have second := canonical _ (List.mem_cons_of_mem _ List.mem_cons_self)
  exact second.elim (fun zero => absurd zero.1 (by decide)) fun other => other rfl

end Grammar

end TwoWayGrammar
