import TwoWayGrammar.Grammar.Read
import TwoWayGrammar.Grammar.Write

/-! Later proofs take runs apart and put them together with these lemmas only. -/

namespace TwoWayGrammar.Run

variable {α β : Type} {held : AddressSet} {store after : Store}

/-- A relation of stores that composes leads through both parts of a bind. -/
theorem bind_leads (relation : Store → Store → Prop)
    (trans : ∀ {before between later : Store}, relation before between → relation between later →
      relation before later)
    {first : Run α} {next : α → Run β} (reached : relation store (first held store).2)
    (further : ∀ result middle, relation middle (next result held middle).2) :
    relation store ((first >>= next) held store).2 := by
  rcases found : first held store with ⟨outcome, middle⟩
  rw [found] at reached
  cases outcome with
  | returned result =>
    rw [bind_of_returned found]
    exact trans reached (further result middle)
  | stopped fault => rwa [bind_of_stopped found]
  | diverged => rwa [bind_of_diverged found]

/-- A bind returns when both of its runs do, one after the other. -/
theorem returned_of_bind {first : Run α} {next : α → Run β} {result : β}
    (returned : (first >>= next) held store = (.returned result, after)) :
    ∃ value middle, first held store = (.returned value, middle) ∧
      next value held middle = (.returned result, after) := by
  rw [bind_apply] at returned
  split at returned
  · rename_i value middle found
    exact ⟨value, middle, found, returned⟩
  · simp at returned
  · simp at returned

theorem returned_of_pure {result value : α}
    (returned : (pure result : Run α) held store = (.returned value, after)) :
    result = value ∧ store = after := by
  simpa using returned

/-- A success that is returned at once is the success itself. -/
theorem success_of_pure {found value : α} {input rest : Input}
    (returned : (pure (.success found input) : Run (Match α)) held store =
      (.returned (.success value rest), after)) :
    found = value ∧ input = rest ∧ store = after := by
  obtain ⟨same, rfl⟩ := returned_of_pure returned
  obtain ⟨rfl, rfl⟩ := Match.success.inj same
  exact ⟨rfl, rfl, rfl⟩

/-- A present result is the result. -/
theorem returned_of_orStop {result : Option α} {fault : Fault} {value : α}
    (returned : orStop result fault held store = (.returned value, after)) :
    result = some value ∧ after = store := by
  cases result with
  | none => simp [orStop, stop] at returned
  | some found =>
    simp only [orStop, pure_apply, Prod.mk.injEq, Outcome.returned.injEq] at returned
    exact ⟨by rw [returned.1], returned.2.symm⟩

/-- A success after a success comes from both parts. -/
theorem success_of_onSuccess {found : Run (Match α)} {next : α → Input → Run (Match β)}
    {value : β} {rest : Input}
    (returned : onSuccess found next held store = (.returned (.success value rest), after)) :
    ∃ first between middle, found held store = (.returned (.success first between), middle) ∧
      next first between held middle = (.returned (.success value rest), after) := by
  obtain ⟨outcome, middle, first, second⟩ := returned_of_bind returned
  cases outcome with
  | success first' between => exact ⟨first', between, middle, first, second⟩
  | failure rest => simp at second

/-- A success of an alternative comes from either part. -/
theorem success_of_onFailure {found other : Run (Match α)} {value : α} {rest : Input}
    (returned : onFailure found other held store = (.returned (.success value rest), after)) :
    found held store = (.returned (.success value rest), after) ∨
      ∃ left middle, found held store = (.returned (.failure left), middle) ∧
        other held middle = (.returned (.success value rest), after) := by
  obtain ⟨outcome, middle, first, second⟩ := returned_of_bind returned
  cases outcome with
  | success first' between =>
    simp only [pure_apply, Prod.mk.injEq, Outcome.returned.injEq, Match.success.injEq] at second
    obtain ⟨⟨rfl, rfl⟩, rfl⟩ := second
    exact .inl first
  | failure left => exact .inr ⟨left, middle, first, second⟩

theorem onSuccess_of_success {found : Run (Match α)} {next : α → Input → Run (Match β)} {value : α}
    {rest : Input} (first : found held store = (.returned (.success value rest), after)) :
    onSuccess found next held store = next value rest held after :=
  bind_of_returned first

theorem onSuccess_of_failure {found : Run (Match α)} {next : α → Input → Run (Match β)}
    {rest : Input} (first : found held store = (.returned (.failure rest), after)) :
    onSuccess found next held store = (.returned (.failure rest), after) :=
  bind_of_returned first

theorem onFailure_of_success {found other : Run (Match α)} {value : α} {rest : Input}
    (first : found held store = (.returned (.success value rest), after)) :
    onFailure found other held store = (.returned (.success value rest), after) :=
  bind_of_returned first

theorem onFailure_of_failure {found other : Run (Match α)} {rest : Input}
    (first : found held store = (.returned (.failure rest), after)) :
    onFailure found other held store = other held after :=
  bind_of_returned first

/-- Holding cells leaves the outcome of a run, and collects at most. -/
theorem holding_apply (cells : AddressSet) (run : Run α) (held : AddressSet)
    (store : Store) :
    (holding cells run held store).1 = (run (held ∪ cells) store).1 ∧
      ((holding cells run held store).2 = (run (held ∪ cells) store).2 ∨
        (holding cells run held store).2 = (run (held ∪ cells) store).2.collect held) := by
  unfold holding
  split
  · rename_i result after returned
    rw [returned]
    refine ⟨rfl, ?_⟩
    dsimp only
    split
    · exact .inl rfl
    · exact .inr rfl
  · exact ⟨rfl, .inl rfl⟩

/-- A run that holds cells returns what the run returns, and may collect afterwards. -/
theorem returned_of_holding {cells : AddressSet} {run : Run α} {result : α}
    (returned : holding cells run held store = (.returned result, after)) :
    ∃ middle, run (held ∪ cells) store = (.returned result, middle) ∧
      (after = middle ∨ after = middle.collect held) := by
  obtain ⟨same, settled⟩ := holding_apply cells run held store
  rw [returned] at same settled
  exact ⟨(run (held ∪ cells) store).2, Prod.ext same.symm rfl, settled⟩

theorem holding_of_returned {cells : AddressSet} {run : Run α} {result : α} {middle : Store}
    (returned : run (held ∪ cells) store = (.returned result, middle)) :
    ∃ after, holding cells run held store = (.returned result, after) ∧
      (after = middle ∨ after = middle.collect held) := by
  obtain ⟨same, settled⟩ := holding_apply cells run held store
  rw [returned] at same settled
  exact ⟨(holding cells run held store).2, Prod.ext same rfl, settled⟩

theorem logging_of_ok (action : TraceLog → Except TraceLog TraceLog) {log : TraceLog}
    (written : action store.log = .ok log) :
    logging action held store = (.returned (), { store with log }) := by
  unfold logging
  rw [written]

theorem logging_of_error (action : TraceLog → Except TraceLog TraceLog) {log : TraceLog}
    (refused : action store.log = .error log) :
    logging action held store = (.stopped .sink, { store with log }) := by
  unfold logging
  rw [refused]

theorem attempt_of_returned {run : Run α} {result : α}
    (returned : run held store = (.returned result, after)) :
    attempt run held store = (.returned (.ok result), after) := by
  unfold attempt
  rw [returned]

theorem attempt_of_stopped {run : Run α} {fault : Fault}
    (stopped : run held store = (.stopped fault, after)) :
    attempt run held store = (.returned (.error fault), after) := by
  unfold attempt
  rw [stopped]

theorem attempt_of_diverged {run : Run α} (diverged : run held store = (.diverged, after)) :
    attempt run held store = (.diverged, after) := by
  unfold attempt
  rw [diverged]

/-- An attempt leaves the store as the run does. -/
theorem attempt_store (run : Run α) (held : AddressSet) (store : Store) :
    (attempt run held store).2 = (run held store).2 := by
  unfold attempt
  rcases run held store with ⟨_ | _ | _, after⟩ <;> rfl

/-- A traced run is a run between two changes of the log, and a refusal of either is the fault. -/
theorem traced_apply (operation name : Text) (ok : α → Bool) (run : Run α) (held : AddressSet)
    (store : Store) :
    traced operation name ok run held store =
      match store.log.enter operation name with
      | .error log => (.stopped .sink, { store with log })
      | .ok entered =>
        match run held { store with log := entered } with
        | (.returned result, left) =>
          match left.log.leave operation name (ok result) with
          | .error log => (.stopped .sink, { left with log })
          | .ok log => (.returned result, { left with log })
        | (.stopped fault, left) =>
          match left.log.leave operation name false with
          | .error log => (.stopped .sink, { left with log })
          | .ok log => (.stopped fault, { left with log })
        | (.diverged, left) => (.diverged, left) := by
  unfold traced
  cases opened : store.log.enter operation name with
  | error log => exact bind_of_stopped (logging_of_error _ opened)
  | ok entered =>
    rw [bind_of_returned (logging_of_ok (·.enter operation name) opened)]
    dsimp only
    rcases ran : run held { store with log := entered } with ⟨outcome, left⟩
    cases outcome with
    | returned result =>
      rw [bind_of_returned (attempt_of_returned ran)]
      dsimp only
      cases closed : left.log.leave operation name (ok result) with
      | error log => exact bind_of_stopped (logging_of_error (·.leave operation name _) closed)
      | ok log => exact bind_of_returned (logging_of_ok (·.leave operation name _) closed)
    | stopped fault =>
      rw [bind_of_returned (attempt_of_stopped ran)]
      dsimp only
      cases closed : left.log.leave operation name false with
      | error log => exact bind_of_stopped (logging_of_error (·.leave operation name _) closed)
      | ok log => exact bind_of_returned (logging_of_ok (·.leave operation name _) closed)
    | diverged => exact bind_of_diverged (attempt_of_diverged ran)

/-- A traced run that returned was a run between two changes of the log. -/
theorem returned_of_traced {operation name : Text} {ok : α → Bool} {run : Run α} {result : α}
    (returned : traced operation name ok run held store = (.returned result, after)) :
    ∃ entered left last, store.log.enter operation name = .ok entered ∧
      run held { store with log := entered } = (.returned result, left) ∧
      left.log.leave operation name (ok result) = .ok last ∧ after = { left with log := last } := by
  rw [traced_apply] at returned
  split at returned
  · simp at returned
  · rename_i entered opened
    split at returned
    · rename_i value left ran
      split at returned
      · simp at returned
      · rename_i last closed
        simp only [Prod.mk.injEq, Outcome.returned.injEq] at returned
        obtain ⟨rfl, rfl⟩ := returned
        exact ⟨entered, left, last, opened, ran, closed, rfl⟩
    · split at returned <;> simp at returned
    · simp at returned

end TwoWayGrammar.Run
