import TwoWayGrammar.Proofs.Grammar.Finding

namespace TwoWayGrammar

namespace Run

/-- What the reading took off an input, the writing puts back in front of the rest, in every store
after the reading. -/
def Restores (held : AddressSet) (store : Store) (reading : Input → Run (Match Value))
    (writing : Value → Input → Run Input) : Prop :=
  store.FromNowOn held fun wider now => ∀ ⦃input value rest after⦄,
    reading input wider now = (.returned (.success value rest), after) →
      after.FromNowOn held fun other last =>
        ∃ final, writing value rest other last = (.returned input, final)

variable {held wider other : AddressSet} {store now after last : Store}
  {reading : Input → Run (Match Value)} {writing : Value → Input → Run Input}

/-- A loop writes its items back in the opposite order, each of them onto what was written before. -/
theorem Restores.readMany (restores : Restores held store reading writing)
    (reads : ∀ input, Evolves held (reading input))
    (writes : ∀ value rest, Evolves held (writing value rest)) (reached : Store.Later held store now)
    (within : held ⊆ wider) {attempts : Nat} {input rest : Input} {values : List Value}
    (found : readMany reading attempts input wider now = (.returned (values, rest), after))
    (later : Store.Later held after last) (inside : held ⊆ other) :
    ∃ final, writeEach writing values rest other last = (.returned input, final) := by
  induction attempts generalizing now input values with
  | zero => simp [Run.readMany, diverge] at found
  | succ attempts ih =>
    obtain ⟨outcome, middle, first, found⟩ := returned_of_bind found
    have step := (reads input).later within first
    cases outcome with
    | success value between =>
      obtain ⟨⟨others, ending⟩, close, further, found⟩ := returned_of_bind found
      obtain ⟨same, rfl⟩ := returned_of_pure found
      obtain ⟨rfl, rfl⟩ := Prod.mk.inj same
      obtain ⟨written, back⟩ := ih (reached.trans step) further
      have looped := (Evolves.readMany reads attempts between).later within further
      have rewritten := (Evolves.writeEach writes others ending).later inside back
      obtain ⟨final, front⟩ :=
        restores reached within first ((looped.trans later).trans rewritten) inside
      exact ⟨final, (bind_of_returned back).trans front⟩
    | failure left =>
      obtain ⟨same, rfl⟩ := returned_of_pure found
      obtain ⟨rfl, rfl⟩ := Prod.mk.inj same
      exact ⟨last, rfl⟩

theorem Restores.readTimes (restores : Restores held store reading writing)
    (reads : ∀ input, Evolves held (reading input))
    (writes : ∀ value rest, Evolves held (writing value rest)) (reached : Store.Later held store now)
    (within : held ⊆ wider) {times : Nat} {input rest : Input} {values : List Value}
    (found : readTimes reading times input wider now = (.returned (.success values rest), after))
    (later : Store.Later held after last) (inside : held ⊆ other) :
    values.length = times ∧
      ∃ final, writeEach writing values rest other last = (.returned input, final) := by
  induction times generalizing now input values with
  | zero =>
    obtain ⟨rfl, rfl, rfl⟩ := success_of_pure found
    exact ⟨rfl, last, rfl⟩
  | succ times ih =>
    obtain ⟨value, between, middle, first, found⟩ := success_of_onSuccess found
    obtain ⟨others, ending, close, further, found⟩ := success_of_onSuccess found
    obtain ⟨rfl, rfl, rfl⟩ := success_of_pure found
    have step := (reads input).later within first
    obtain ⟨length, written, back⟩ := ih (reached.trans step) further
    have looped := (Evolves.readTimes reads times between).later within further
    have rewritten := (Evolves.writeEach writes others ending).later inside back
    obtain ⟨final, front⟩ :=
      restores reached within first ((looped.trans later).trans rewritten) inside
    exact ⟨congrArg Nat.succ length, final, (bind_of_returned back).trans front⟩

/-- Holding cells on both ways changes nothing but what is released afterwards. -/
theorem Restores.holding (restores : Restores held store reading writing) (cells : AddressSet) :
    Restores held store (fun input => Run.holding cells (reading input))
      fun value rest => Run.holding cells (writing value rest) := by
  intro now reached wider within input value rest after found last later other inside
  obtain ⟨middle, inner, settled⟩ := returned_of_holding found
  have gap : Store.Later held middle after := Store.later_of_settled within settled
  obtain ⟨final, written⟩ := restores reached
    (AddressSet.Subset.trans within (AddressSet.subset_union_left wider cells)) inner
    (gap.trans later) (AddressSet.Subset.trans inside (AddressSet.subset_union_left other cells))
  obtain ⟨ending, returned, _⟩ := holding_of_returned written
  exact ⟨ending, returned⟩

/-- A kept cell is entered on the way back as it was before, with the same grammar. -/
theorem Restores.resolve {cell : Address} {enter : Grammar → Input → Run (Match Value)}
    {back : Grammar → Value → Input → Run Input}
    (enters : ∀ body input, Evolves held (enter body input))
    (keeps : ∀ now, Store.Later held store now → now.Live cell → Store.Keeps held now cell)
    (restores : ∀ now, Store.Later held store now → ∀ wider, held ⊆ wider → ∀ built middle,
      Run.resolve cell wider now = (.returned built.grammar, middle) →
        middle.cells[cell]? = some (.holding built) → Store.Keeps held middle cell →
          Restores held middle (enter built.grammar) (back built.grammar)) :
    Restores held store (fun input => Run.resolve cell >>= fun body => enter body input)
      fun value rest => Run.resolve cell >>= fun body => back body value rest := by
  intro now reached wider within input value rest after found last later other inside
  obtain ⟨body, middle, resolved, entered⟩ := returned_of_bind found
  have step := (evolves_resolve cell).later within resolved
  have kept := keeps now reached (live_of_resolve resolved)
  obtain ⟨built, holds, rfl⟩ := holds_of_resolve within kept resolved
  have inner := (enters built.grammar input).later within entered
  have again : last.cells[cell]? = some (.holding built) :=
    (kept.later step).holding (inner.trans later) holds
  obtain ⟨final, written⟩ := restores now reached wider within built middle resolved holds
    (kept.later step) (.refl held middle) within entered later inside
  exact ⟨final, (bind_of_returned (resolve_of_holding again)).trans written⟩

end Run

namespace Grammar

/-- A grammar restores an input with the given fuel for both ways. -/
def Restores (held : AddressSet) (store : Store) (fuel : Nat) (grammar : Grammar) : Prop :=
  Run.Restores held store (grammar.read fuel) (grammar.write fuel)

variable {held : AddressSet} {store : Store} {fuel : Nat}
  {first second body mark determinant : Grammar}

/-- What was read by one grammar and then by another is written back in the opposite order. -/
theorem restores_both (restoresFirst : Restores held store fuel first)
    (restoresSecond : Restores held store fuel second) {now middle after last : Store}
    {wider other : AddressSet} {input between rest : Input} {firstValue secondValue : Value}
    (reached : Store.Later held store now) (within : held ⊆ wider)
    (firstFound : first.read fuel input wider now =
      (.returned (.success firstValue between), middle))
    (secondFound : second.read fuel between wider middle =
      (.returned (.success secondValue rest), after))
    (later : Store.Later held after last) (inside : held ⊆ other) :
    ∃ final, (second.write fuel secondValue rest >>= fun written =>
      first.write fuel firstValue written) other last = (.returned input, final) := by
  have step := (read_evolves held fuel first input).later within firstFound
  have further := (read_evolves held fuel second between).later within secondFound
  obtain ⟨written, back⟩ := restoresSecond (reached.trans step) within secondFound later inside
  have rewritten := (write_evolves held fuel second secondValue rest).later inside back
  obtain ⟨final, front⟩ :=
    restoresFirst reached within firstFound ((further.trans later).trans rewritten) inside
  exact ⟨final, (Run.bind_of_returned back).trans front⟩

theorem restores_primitive (base : Primitive) : Restores held store fuel (primitive base) := by
  intro now reached wider within input value rest after found last later other inside
  rw [read_primitive] at found
  obtain ⟨same, rfl⟩ := Run.returned_of_pure found
  refine ⟨last, ?_⟩
  rw [write_primitive, base.write?_of_success input rest value same]
  rfl

theorem Restores.adapt {prism : ValuePrism} (exact : prism.Exact)
    (restores : Restores held store fuel body) :
    Restores held store fuel (Grammar.adapt prism body) := by
  intro now reached wider within input value rest after found last later other inside
  rw [read_adapt] at found
  obtain ⟨representation, between, middle, first, found⟩ := Run.success_of_onSuccess found
  cases viewed : prism.preview representation with
  | none => simp [viewed] at found
  | some view =>
    rw [viewed] at found
    obtain ⟨rfl, rfl, rfl⟩ := Run.success_of_pure found
    rw [write_adapt, exact representation view viewed]
    exact restores reached within first later inside

theorem Restores.sequence (restoresFirst : Restores held store fuel first)
    (restoresSecond : Restores held store fuel second) :
    Restores held store fuel (Grammar.sequence first second) := by
  intro now reached wider within input value rest after found last later other inside
  rw [read_sequence] at found
  obtain ⟨firstValue, between, middle, firstFound, found⟩ := Run.success_of_onSuccess found
  obtain ⟨secondValue, ending, close, secondFound, found⟩ := Run.success_of_onSuccess found
  obtain ⟨rfl, rfl, rfl⟩ := Run.success_of_pure found
  rw [write_sequence]
  exact restores_both restoresFirst restoresSecond reached within firstFound secondFound later inside

/-- A discarded part is written from the unit, so it must have been read as the unit. -/
theorem Restores.thenDiscard (restoresBody : Restores held store fuel body)
    (restoresMark : Restores held store fuel mark) (unit : Yields held store mark (· = .unit)) :
    Restores held store fuel (Grammar.thenDiscard body mark) := by
  intro now reached wider within input value rest after found last later other inside
  rw [read_thenDiscard] at found
  obtain ⟨bodyValue, between, middle, bodyFound, found⟩ := Run.success_of_onSuccess found
  obtain ⟨markValue, ending, close, markFound, found⟩ := Run.success_of_onSuccess found
  obtain ⟨rfl, rfl, rfl⟩ := Run.success_of_pure found
  have step := (read_evolves held fuel body input).later within bodyFound
  obtain rfl := unit (reached.trans step) within markFound
  rw [write_thenDiscard]
  exact restores_both restoresBody restoresMark reached within bodyFound markFound later inside

theorem Restores.discardThen (restoresMark : Restores held store fuel mark)
    (unit : Yields held store mark (· = .unit)) (restoresBody : Restores held store fuel body) :
    Restores held store fuel (Grammar.discardThen mark body) := by
  intro now reached wider within input value rest after found last later other inside
  rw [read_discardThen] at found
  obtain ⟨markValue, between, middle, markFound, bodyFound⟩ := Run.success_of_onSuccess found
  obtain rfl := unit reached within markFound
  rw [write_discardThen]
  exact restores_both restoresMark restoresBody reached within markFound bodyFound later inside

/-- Each alternative marks its values, so a value is written by the alternative that read it. -/
theorem Restores.choice (restoresFirst : Restores held store fuel first)
    (restoresSecond : Restores held store fuel second) :
    Restores held store fuel (Grammar.choice first second) := by
  intro now reached wider within input value rest after found last later other inside
  rw [read_choice] at found
  rcases Run.success_of_onFailure found with taken | ⟨left, middle, missed, taken⟩
  · obtain ⟨content, between, close, firstFound, found⟩ := Run.success_of_onSuccess taken
    obtain ⟨rfl, rfl, rfl⟩ := Run.success_of_pure found
    rw [write_choice_left]
    exact restoresFirst reached within firstFound later inside
  · have step := ((read_evolves held fuel first input).onSuccess fun value rest =>
      Run.evolves_pure (.success (Value.left value) rest)).later within missed
    obtain ⟨content, between, close, secondFound, found⟩ := Run.success_of_onSuccess taken
    obtain ⟨rfl, rfl, rfl⟩ := Run.success_of_pure found
    rw [write_choice_right]
    exact restoresSecond (reached.trans step) within secondFound later inside

theorem Restores.many (restores : Restores held store fuel body) :
    Restores held store fuel (Grammar.many body) := by
  intro now reached wider within input value rest after found last later other inside
  rw [read_many] at found
  obtain ⟨⟨values, ending⟩, middle, looped, found⟩ := Run.returned_of_bind found
  obtain ⟨rfl, rfl, rfl⟩ := Run.success_of_pure found
  rw [write_many]
  exact Run.Restores.readMany restores (read_evolves held fuel body) (write_evolves held fuel body)
    reached within looped later inside

/-- A list that was read has the length of the loop, so all of its items are written. -/
theorem Restores.replicate (capacity : Capacity) (count : Nat) (restores : Restores held store fuel body) :
    Restores held store fuel (Grammar.replicate capacity count body) := by
  intro now reached wider within input value rest after found last later other inside
  rw [read_replicate] at found
  split at found
  · simp [Run.stop] at found
  · obtain ⟨values, ending, middle, looped, found⟩ := Run.success_of_onSuccess found
    obtain ⟨rfl, rfl, rfl⟩ := Run.success_of_pure found
    obtain ⟨length, written⟩ := Run.Restores.readTimes restores (read_evolves held fuel body)
      (write_evolves held fuel body) reached within looped later inside
    rw [write_replicate, List.take_of_length_le (Nat.le_of_eq length)]
    exact written

/-- The determinant must be found again in the value that was read after it. -/
theorem Restores.dependent {next : Value → Grammar} {extract : Value → Value}
    {captured : AddressSet} (restoresDeterminant : Restores held store fuel determinant)
    (restoresNext : Yields held store determinant fun value =>
      Restores held store fuel (next value) ∧
        Yields held store (next value) (extract · = value)) :
    Restores held store fuel (Grammar.dependent determinant next extract captured) := by
  intro now reached wider within input value rest after found last later other inside
  rw [read_dependent] at found
  obtain ⟨chosen, between, middle, determined, found⟩ := Run.success_of_onSuccess found
  obtain ⟨restoresChosen, extracts⟩ := restoresNext reached within determined
  have step := (read_evolves held fuel determinant input).later within determined
  obtain rfl := extracts (reached.trans step) within found
  rw [write_dependent]
  exact restores_both restoresDeterminant restoresChosen reached within determined found later inside

/-- The default stands for nothing, so no other input may be read as the default. -/
theorem Restores.withDefault {default : Value} (restores : Restores held store fuel body)
    (other : Yields held store body (· ≠ default)) :
    Restores held store fuel (Grammar.withDefault default body) := by
  intro now reached wider within input value rest after found last later next inside
  rw [read_withDefault] at found
  rw [write_withDefault]
  rcases Run.success_of_onFailure found with taken | ⟨left, middle, missed, taken⟩
  · rw [if_neg (other reached within taken)]
    exact restores reached within taken later inside
  · obtain ⟨rfl, rfl, rfl⟩ := Run.success_of_pure taken
    exact ⟨last, by simp⟩

theorem Restores.opt (restores : Restores held store fuel body) :
    Restores held store fuel (Grammar.opt body) := by
  intro now reached wider within input value rest after found last later other inside
  rw [read_opt] at found
  rcases Run.success_of_onFailure found with taken | ⟨left, middle, missed, taken⟩
  · obtain ⟨content, between, close, bodyFound, found⟩ := Run.success_of_onSuccess taken
    obtain ⟨rfl, rfl, rfl⟩ := Run.success_of_pure found
    rw [write_opt_present]
    exact restores reached within bodyFound later inside
  · obtain ⟨rfl, rfl, rfl⟩ := Run.success_of_pure taken
    rw [write_opt_absent]
    exact ⟨last, rfl⟩

/-- A log that refuses nothing lets both ways through. -/
theorem Restores.traced (name : Text) (quiet : store.Quiet)
    (restores : Restores held store fuel body) :
    Restores held store fuel (Grammar.traced name body) := by
  intro now reached wider within input value rest after found last later other inside
  rw [read_traced] at found
  obtain ⟨entered, left, closed, opened, taken, logged, rfl⟩ := Run.returned_of_traced found
  have step : Store.Later held now { now with log := entered } := Store.later_of_enter opened
  have close : Store.Later held left { left with log := closed } := Store.later_of_leave logged
  have looked := (read_evolves held fuel body input).later within taken
  have calm : last.Quiet :=
    Store.Later.quiet ((((reached.trans step).trans looked).trans close).trans later) quiet
  obtain ⟨reentered, reopened⟩ := last.log.enter_of_quiet calm "construct".toList name
  have restep : Store.Later held last { last with log := reentered } :=
    Store.later_of_enter reopened
  obtain ⟨final, written⟩ := restores (reached.trans step) within taken
    ((close.trans later).trans restep) inside
  have rewritten := (write_evolves held fuel body value rest).later inside written
  obtain ⟨ending, _, traced⟩ := Run.traced_of_quiet reopened written
    ((restep.trans rewritten).quiet calm)
  rw [write_traced]
  exact ⟨_, traced⟩

end Grammar

end TwoWayGrammar
