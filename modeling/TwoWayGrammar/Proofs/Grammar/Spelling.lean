import TwoWayGrammar.NonEmpty
import TwoWayGrammar.Proofs.Grammar.Clauses

namespace TwoWayGrammar

/-- An input split behind the longest start that it shares with a word. -/
structure Input.SplitsBehind (input word common rest : Input) : Prop where
  whole : input = common ++ rest
  starts : common <+: word
  longest : ∀ other, other <+: word → other <+: input → other <+: common

namespace Input

variable {input word common rest : Input} {atom expected : Atom}

/-- Nothing is shared with a word whose first atom is missing. -/
theorem splitsBehind_nil (missing : input.head? ≠ some expected) :
    SplitsBehind input (expected :: word) [] input where
  whole := rfl
  starts := List.nil_prefix
  longest other inWord inInput := by
    cases other with
    | nil => exact List.nil_prefix
    | cons first other =>
      obtain ⟨same, -⟩ := List.cons_prefix_cons.mp inWord
      obtain ⟨behind, rfl⟩ := inInput
      simp [same] at missing

theorem SplitsBehind.cons (splits : SplitsBehind input word common rest) (atom : Atom) :
    SplitsBehind (atom :: input) (atom :: word) (atom :: common) rest where
  whole := congrArg (atom :: ·) splits.whole
  starts := List.cons_prefix_cons.mpr ⟨rfl, splits.starts⟩
  longest other inWord inInput := by
    cases other with
    | nil => exact List.nil_prefix
    | cons first other =>
      obtain ⟨same, inWord⟩ := List.cons_prefix_cons.mp inWord
      obtain ⟨-, inInput⟩ := List.cons_prefix_cons.mp inInput
      exact List.cons_prefix_cons.mpr ⟨same, splits.longest other inWord inInput⟩

/-- There is one longest start, so the input is split at one place only. -/
theorem SplitsBehind.unique {other left : Input} (splits : SplitsBehind input word common rest)
    (others : SplitsBehind input word other left) : common = other ∧ rest = left := by
  have below : common <+: other := others.longest common splits.starts ⟨rest, splits.whole.symm⟩
  have above : other <+: common := splits.longest other others.starts ⟨left, others.whole.symm⟩
  obtain rfl := below.eq_of_length_le above.length_le
  exact ⟨rfl, List.append_cancel_left (splits.whole.symm.trans others.whole)⟩

end Input

namespace Grammar

variable (fuel : Nat)

section Reading

variable {input word : Input} {expected : Atom}

/-- A word that is there is taken off. -/
theorem read_keyword_append (word rest : Input) :
    (keyword word).read fuel (word ++ rest) = pure (.success .unit rest) := by
  rw [read_primitive, Primitive.read, (Input.after?_eq_some_iff _ _ _).mpr rfl]

/-- A word that is there in part is not taken off in part. -/
theorem read_keyword_of_not_prefix (missing : ¬ word <+: input) :
    (keyword word).read fuel input = pure (.failure input) := by
  have nothing : input.after? word = none := by
    refine Option.eq_none_iff_forall_ne_some.mpr fun rest found => missing ?_
    exact ⟨rest, ((Input.after?_eq_some_iff _ _ _).mp found).symm⟩
  rw [read_primitive, Primitive.read, nothing]

theorem read_keyword (word input : Input) :
    (keyword word).read fuel input =
      pure (if word <+: input then .success .unit (input.drop word.length) else .failure input) := by
  by_cases starts : word <+: input
  · obtain ⟨rest, rfl⟩ := starts
    rw [if_pos (List.prefix_append word rest), List.drop_left]
    exact read_keyword_append fuel word rest
  · rw [if_neg starts]
    exact read_keyword_of_not_prefix fuel starts

theorem read_literal_cons (expected : Atom) (rest : Input) :
    (literal expected).read fuel (expected :: rest) = pure (.success .unit rest) := by
  rw [read_primitive, Primitive.read, if_pos rfl]

theorem read_literal_of_ne (missing : input.head? ≠ some expected) :
    (literal expected).read fuel input = pure (.failure input) := by
  rw [read_primitive]
  cases input with
  | nil => rfl
  | cons atom rest =>
    have other : atom ≠ expected := fun same => missing (congrArg some same)
    rw [Primitive.read, if_neg other]

end Reading

/-- Literals in a row, each in front of those after it. -/
def literals : Atom → List Atom → Grammar
  | first, [] => literal first
  | first, next :: others => discardThen (literal first) (literals next others)

/-- A word as the row of its literals. -/
def spelledOut (word : NonEmpty Atom) : Grammar := literals word.head word.tail

/-- Literals take off the word that they spell. -/
theorem read_literals_append (first : Atom) (others rest : Input) :
    (literals first others).read fuel (first :: others ++ rest) = pure (.success .unit rest) := by
  induction others generalizing first with
  | nil => exact read_literal_cons fuel first rest
  | cons next others ih =>
    rw [literals, read_discardThen, List.cons_append, read_literal_cons]
    exact ih next

/-- Literals fail at the first atom that differs, and those in front of it stay taken off. -/
theorem read_literals_of_not_prefix (first : Atom) (others : Input) {input : Input}
    (missing : ¬ first :: others <+: input) :
    ∃ common rest, Input.SplitsBehind input (first :: others) common rest ∧
      (literals first others).read fuel input = pure (.failure rest) := by
  induction others generalizing first input with
  | nil =>
    have absent : input.head? ≠ some first := by
      intro head
      cases input with
      | nil => simp at head
      | cons atom rest =>
        obtain rfl := Option.some.inj head
        exact missing ⟨rest, rfl⟩
    exact ⟨[], input, Input.splitsBehind_nil absent, read_literal_of_ne fuel absent⟩
  | cons next others ih =>
    by_cases present : input.head? = some first
    · cases input with
      | nil => simp at present
      | cons atom rest =>
        obtain rfl := Option.some.inj present
        have behind : ¬ next :: others <+: rest := fun starts =>
          missing (List.cons_prefix_cons.mpr ⟨rfl, starts⟩)
        obtain ⟨common, left, splits, failed⟩ := ih next behind
        refine ⟨atom :: common, left, splits.cons atom, ?_⟩
        rw [literals, read_discardThen, read_literal_cons]
        exact failed
    · refine ⟨[], input, Input.splitsBehind_nil present, ?_⟩
      rw [literals, read_discardThen, read_literal_of_ne fuel present]
      rfl

/-- A word is written in one piece. -/
theorem write_keyword (word rest : Input) :
    (keyword word).write fuel .unit rest = pure (word ++ rest) := by
  rw [write_primitive]
  rfl

/-- The last literal is written first. -/
theorem writeEach_literal (word rest : Input) :
    Run.writeEach (fun atom => (literal atom).write fuel .unit) word rest = pure (word ++ rest) := by
  induction word with
  | nil => rfl
  | cons atom word ih =>
    rw [Run.writeEach, ih, pure_bind, write_primitive]
    rfl

theorem write_literals (first : Atom) (others rest : Input) :
    (literals first others).write fuel .unit rest = pure (first :: others ++ rest) := by
  induction others generalizing first with
  | nil =>
    rw [literals, write_primitive]
    rfl
  | cons next others ih =>
    rw [literals, write_discardThen, ih, pure_bind, write_primitive]
    rfl

/-- A word is taken off an input that starts with it, and any other input is shown as it is. It is written
as its literals would be, one in front of the other. The row of its literals takes off and writes the same,
but where the word is missing it shows what the longest common start has left. -/
theorem keyword_agrees_with_literals (fuel : Nat) :
    (∀ word input : Input, (keyword word).read fuel input =
      pure (if word <+: input then .success .unit (input.drop word.length) else .failure input)) ∧
    (∀ word rest : Input, (keyword word).write fuel .unit rest = pure (word ++ rest) ∧
      Run.writeEach (fun atom => (literal atom).write fuel .unit) word rest = pure (word ++ rest)) ∧
    ∀ word : NonEmpty Atom,
      (∀ input, word.toList <+: input →
        (spelledOut word).read fuel input = (keyword word.toList).read fuel input) ∧
      (∀ input, ¬ word.toList <+: input → ∃ common rest,
        Input.SplitsBehind input word.toList common rest ∧
          (spelledOut word).read fuel input = pure (.failure rest)) ∧
      ∀ rest, (spelledOut word).write fuel .unit rest = (keyword word.toList).write fuel .unit rest := by
  refine ⟨read_keyword fuel, fun word rest => ⟨write_keyword fuel word rest, writeEach_literal fuel word rest⟩,
    fun word => ⟨?_, ?_, ?_⟩⟩
  · rintro input ⟨rest, rfl⟩
    rw [read_keyword_append]
    exact read_literals_append fuel word.head word.tail rest
  · intro input missing
    exact read_literals_of_not_prefix fuel word.head word.tail missing
  · intro rest
    rw [write_keyword]
    exact write_literals fuel word.head word.tail rest

/-- A word of four letters is missing for its last letter only. The word shows the whole input, and its
literals show what stands behind the three letters in common. -/
theorem keyword_agrees_with_literals_trust :
    let word : NonEmpty Atom := ⟨.char 't', [.char 'r', .char 'u', .char 'e']⟩
    let input : Input := "trust".toList.map .char
    let longer : Input := "truest".toList.map .char
    ¬ word.toList <+: input ∧ word.toList <+: longer ∧
    (keyword word.toList).read 0 input = pure (.failure input) ∧
    (spelledOut word).read 0 input = pure (.failure [.char 's', .char 't']) ∧
    (spelledOut word).read 0 longer = pure (.success .unit [.char 's', .char 't']) ∧
    (spelledOut word).write 0 .unit [.char 's', .char 't'] = pure longer := by
  intro word input longer
  obtain ⟨reads, writes, spelled⟩ := keyword_agrees_with_literals 0
  obtain ⟨succeeds, fails, written⟩ := spelled word
  have missing : ¬ word.toList <+: input := by decide
  have starts : word.toList <+: longer := by decide
  refine ⟨missing, starts, ?_, ?_, ?_, ?_⟩
  · rw [reads, if_neg missing]
  · obtain ⟨common, rest, splits, failed⟩ := fails input missing
    have three : Input.SplitsBehind input word.toList ("tru".toList.map .char) [.char 's', .char 't'] :=
      (((Input.splitsBehind_nil (by decide)).cons (.char 'u')).cons (.char 'r')).cons (.char 't')
    obtain ⟨-, rfl⟩ := splits.unique three
    exact failed
  · rw [succeeds longer starts, reads, if_pos starts]
    rfl
  · rw [written, (writes _ _).1]
    rfl

end Grammar

end TwoWayGrammar
