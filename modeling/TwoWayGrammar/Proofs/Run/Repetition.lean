import TwoWayGrammar.Proofs.Store.Conversion
import TwoWayGrammar.Proofs.Store.History

namespace TwoWayGrammar.Run

variable {α β : Type} {held : AddressSet} {store last : Store} {result : α}

/-- A run that stops has no result. -/
def Stops (run : Run α) (held : AddressSet) (store : Store) : Prop :=
  ∃ fault after, run held store = (.stopped fault, after)

theorem Stops.bind {first : Run α} (stops : first.Stops held store) (next : α → Run β) :
    (first >>= next).Stops held store := by
  obtain ⟨fault, after, stopped⟩ := stops
  exact ⟨fault, after, bind_of_stopped stopped⟩

theorem Stops.map {run : Run α} (stops : run.Stops held store) (change : α → β) :
    (change <$> run).Stops held store := by
  rw [map_eq_pure_bind]
  exact stops.bind _

theorem stops_bind_of_returned {first : Run α} {next : α → Run β} {middle : Store}
    (returned : first held store = (.returned result, middle))
    (stops : (next result).Stops held middle) : (first >>= next).Stops held store := by
  obtain ⟨fault, after, stopped⟩ := stops
  exact ⟨fault, after, (bind_of_returned returned).trans stopped⟩

theorem Stops.holding {cells : AddressSet} {run : Run α} (stops : run.Stops (held ∪ cells) store) :
    (Run.holding cells run).Stops held store := by
  obtain ⟨fault, after, stopped⟩ := stops
  exact ⟨fault, after, by simp only [Run.holding, stopped]⟩

theorem stops_traced_of_refused {operation name : Text} {ok : α → Bool} {run : Run α}
    {log : TraceLog} (refused : store.log.enter operation name = .error log) :
    (traced operation name ok run).Stops held store :=
  ⟨.sink, { store with log }, by rw [traced_apply, refused]⟩

/-- A fault of a traced run goes on, or the exit line is refused. -/
theorem Stops.traced {operation name : Text} {ok : α → Bool} {run : Run α} {entered : TraceLog}
    (opened : store.log.enter operation name = .ok entered)
    (stops : run.Stops held { store with log := entered }) :
    (Run.traced operation name ok run).Stops held store := by
  obtain ⟨fault, left, stopped⟩ := stops
  rw [Stops, traced_apply, opened]
  dsimp only
  rw [stopped]
  dsimp only
  cases left.log.leave operation name false with
  | error log => exact ⟨_, _, rfl⟩
  | ok log => exact ⟨_, _, rfl⟩

/-- A traced run that returned logs its exit, or the exit line is refused. -/
theorem traced_of_returned (store : Store) {operation name : Text} {ok : α → Bool} {run : Run α}
    {entered : TraceLog} {left : Store} (opened : store.log.enter operation name = .ok entered)
    (returned : run held { store with log := entered } = (.returned result, left)) :
    (Run.traced operation name ok run).Stops held store ∨
      ∃ log, left.log.leave operation name (ok result) = .ok log ∧
        Run.traced operation name ok run held store = (.returned result, { left with log }) := by
  rw [Stops, traced_apply, opened]
  dsimp only
  rw [returned]
  dsimp only
  cases left.log.leave operation name (ok result) with
  | error log => exact .inl ⟨_, _, rfl⟩
  | ok log => exact .inr ⟨log, rfl, rfl⟩

/-- A run recurs with a result when it stops, or returns the result and changes nothing but the log. -/
def Recurs (run : Run α) (held : AddressSet) (store : Store) (result : α) : Prop :=
  run.Stops held store ∨ ∃ log, log.sink.refuses = store.log.sink.refuses ∧
    run held store = (.returned result, { store with log })

/-- A repeatable run recurs with its result in every store after it. -/
structure Repeatable (run : Run α) : Prop where
  evolves : Evolves ∅ run
  recurs : ∀ {held wider store result after last}, run held store = (.returned result, after) →
    Store.Later ∅ after last → run.Recurs wider last result

theorem later_of_refuses {log : TraceLog} (same : log.sink.refuses = store.log.sink.refuses) :
    Store.Later held store { store with log } :=
  (Store.Change.log same).later

theorem repeatable_pure (result : α) : Repeatable (pure result) where
  evolves := evolves_pure result
  recurs {_ _ _ _ _ last} returned _ := by
    obtain ⟨rfl, rfl⟩ := returned_of_pure returned
    exact .inr ⟨last.log, rfl, rfl⟩

theorem repeatable_stop (fault : Fault) : Repeatable (stop fault : Run α) where
  evolves := evolves_stop fault
  recurs {_ _ _ _ _ last} _ _ := .inl ⟨fault, last, rfl⟩

theorem repeatable_diverge : Repeatable (diverge : Run α) where
  evolves := fun _ _ store => .refl ∅ store
  recurs returned _ := by simp [diverge] at returned

theorem Repeatable.bind {first : Run α} {next : α → Run β} (before : Repeatable first)
    (further : ∀ result, Repeatable (next result)) : Repeatable (first >>= next) where
  evolves := before.evolves.bind fun result => (further result).evolves
  recurs {held wider store result after last} returned later := by
    obtain ⟨value, middle, begun, ended⟩ := returned_of_bind returned
    have step := (further value).evolves.later (AddressSet.empty_subset held) ended
    rcases before.recurs begun (step.trans later) with stops | ⟨log, same, again⟩
    · exact .inl (stops.bind next)
    rcases (further value).recurs ended (later.trans (later_of_refuses same)) with
      stops | ⟨other, kept, ending⟩
    · exact .inl (stops_bind_of_returned again stops)
    · exact .inr ⟨other, kept.trans same, (bind_of_returned again).trans ending⟩

/-- A second run finds every cell filled that the first one has used, so no factory runs then. -/
theorem repeatable_resolve (cell : Address) : Repeatable (resolve cell) where
  evolves := evolves_resolve cell
  recurs {_ wider _ _ after last} resolved later := by
    have released (gone : last.cells[cell]? = some .released) : (resolve cell).Stops wider last :=
      ⟨.grammar .released, last, resolve_of_error (by simp [Store.offer, gone, Cell.offer])⟩
    rcases holding_or_released_of_resolve resolved with ⟨built, holds, rfl⟩ | gone
    · rcases later.holding holds with kept | gone
      · exact .inr ⟨last.log, rfl, resolve_of_holding kept⟩
      · exact .inl (released gone)
    · have settled : after.Settled cell .released := ⟨gone, fun _ => by simp⟩
      obtain ⟨still, _⟩ | ⟨still, _⟩ := later.settled settled
      · exact .inl (released still)
      · exact .inl (released still)

theorem Repeatable.holding (cell : Address) {run : Run α} (repeatable : Repeatable run) :
    Repeatable (Run.holding {cell} run) where
  evolves := repeatable.evolves.holding _
  recurs {held wider store result after last} returned later := by
    obtain ⟨middle, inner, settled⟩ := returned_of_holding returned
    have gap : Store.Later ∅ middle after :=
      Store.later_of_settled (AddressSet.empty_subset held) settled
    have inside : run.Recurs (wider ∪ {cell}) last result :=
      repeatable.recurs inner (gap.trans later)
    rcases inside with stops | ⟨log, same, again⟩
    · exact .inl stops.holding
    · exact .inr ⟨log, same, by simp [Run.holding, again]⟩

theorem Repeatable.traced (operation name : Text) (ok : α → Bool) {run : Run α}
    (repeatable : Repeatable run) : Repeatable (Run.traced operation name ok run) where
  evolves := repeatable.evolves.traced operation name ok
  recurs {held wider store result after last} returned later := by
    obtain ⟨entered, left, closed, _, inner, logged, rfl⟩ := returned_of_traced returned
    have step : Store.Later ∅ left last := (Store.later_of_leave logged).trans later
    cases opened : last.log.enter operation name with
    | error log => exact .inl (stops_traced_of_refused opened)
    | ok reentered =>
      have restep : Store.Later ∅ left { last with log := reentered } :=
        step.trans (Store.later_of_enter opened)
      have inside : run.Recurs wider { last with log := reentered } result :=
        repeatable.recurs inner restep
      rcases inside with stops | ⟨log, same, again⟩
      · exact .inl (stops.traced opened)
      rcases traced_of_returned last opened again with stops | ⟨ending, left, traced⟩
      · exact .inl stops
      refine .inr ⟨ending, ?_, traced⟩
      have entering := last.log.refuses_enter operation name
      have leaving := log.refuses_leave operation name (ok result)
      rw [opened] at entering
      rw [show log.leave operation name (ok result) = .ok ending from left] at leaving
      exact leaving.trans (same.trans entering)

theorem repeatable_compatible : Compatible fun _ run _ => Repeatable run where
  diverge _ := repeatable_diverge
  pure := repeatable_pure
  stop := repeatable_stop
  bind before later := before.bind later
  traced operation name ok _ _ repeatable := repeatable.traced operation name ok
  holding cell _ _ repeatable := repeatable.holding cell
  resolve := repeatable_resolve

/-- A blind run ends in the same way whatever log there is, and leaves the same but for the log, unless it
stops with the one log or with the other. -/
def Blind (run : Run α) : Prop :=
  ∀ held store log, run.Stops held store ∨ run.Stops held { store with log } ∨
    ∃ outcome after other, run held store = (outcome, after) ∧
      run held { store with log } = (outcome, { after with log := other })

theorem blind_pure (result : α) : Blind (pure result) := fun _ store log =>
  .inr (.inr ⟨.returned result, store, log, rfl, rfl⟩)

theorem blind_stop (fault : Fault) : Blind (stop fault : Run α) := fun _ store _ =>
  .inl ⟨fault, store, rfl⟩

theorem blind_diverge : Blind (diverge : Run α) := fun _ store log =>
  .inr (.inr ⟨.diverged, store, log, rfl, rfl⟩)

theorem Blind.bind {first : Run α} {next : α → Run β} (before : Blind first)
    (further : ∀ result, Blind (next result)) : Blind (first >>= next) := by
  intro held store log
  rcases before held store log with stops | stops | ⟨outcome, middle, other, here, there⟩
  · exact .inl (stops.bind next)
  · exact .inr (.inl (stops.bind next))
  cases outcome with
  | stopped fault => exact .inl (Stops.bind ⟨fault, middle, here⟩ next)
  | diverged =>
    exact .inr (.inr ⟨.diverged, middle, other, bind_of_diverged here, bind_of_diverged there⟩)
  | returned result =>
    rcases further result held middle other with stops | stops | ⟨ending, after, last, ended, same⟩
    · exact .inl (stops_bind_of_returned here stops)
    · exact .inr (.inl (stops_bind_of_returned there stops))
    · exact .inr (.inr ⟨ending, after, last, (bind_of_returned here).trans ended,
        (bind_of_returned there).trans same⟩)

theorem Blind.map (change : α → β) {run : Run α} (blind : Blind run) : Blind (change <$> run) := by
  rw [map_eq_pure_bind]
  exact blind.bind fun _ => blind_pure _

theorem blind_resolve (cell : Address) : Blind (resolve cell) := fun held store log =>
  .inr (.inr ⟨_, _, log, rfl, resolve_log cell held store log⟩)

theorem Blind.holding (cell : Address) {run : Run α} (blind : Blind run) :
    Blind (Run.holding {cell} run) := by
  intro held store log
  rcases blind (held ∪ {cell}) store log with stops | stops | ⟨outcome, after, other, here, there⟩
  · exact .inl stops.holding
  · exact .inr (.inl stops.holding)
  cases outcome with
  | stopped fault => exact .inl (Stops.holding ⟨fault, after, here⟩)
  | diverged =>
    exact .inr (.inr ⟨.diverged, after, other, by simp [Run.holding, here],
      by simp [Run.holding, there]⟩)
  | returned result =>
    refine .inr (.inr ⟨.returned result,
      if after.builds = store.builds then after else after.collect held, other, ?_, ?_⟩)
    · simp only [Run.holding, here]
    · simp only [Run.holding, there]
      split
      · rfl
      · rw [Store.collect_log]

theorem Blind.traced (operation name : Text) (ok : α → Bool) {run : Run α} (blind : Blind run) :
    Blind (Run.traced operation name ok run) := by
  intro held store log
  cases opened : store.log.enter operation name with
  | error refused => exact .inl (stops_traced_of_refused opened)
  | ok entered =>
  cases reopened : log.enter operation name with
  | error refused =>
    exact .inr (.inl (stops_traced_of_refused reopened))
  | ok reentered =>
  rcases blind held { store with log := entered } reentered with
    stops | stops | ⟨outcome, after, other, here, there⟩
  · exact .inl (stops.traced opened)
  · exact .inr (.inl (Stops.traced reopened stops))
  cases outcome with
  | stopped fault => exact .inl (Stops.traced opened ⟨fault, after, here⟩)
  | diverged =>
    refine .inr (.inr ⟨.diverged, after, other, ?_, ?_⟩)
    · rw [traced_apply, opened]
      dsimp only
      rw [here]
    · rw [traced_apply, reopened]
      dsimp only at there ⊢
      rw [there]
  | returned result =>
    rcases traced_of_returned store opened here with stops | ⟨closed, _, traced⟩
    · exact .inl stops
    rcases traced_of_returned { store with log } reopened there with
      stops | ⟨reclosed, _, retraced⟩
    · exact .inr (.inl stops)
    · exact .inr (.inr ⟨.returned result, _, reclosed, traced, retraced⟩)

theorem blind_compatible : Compatible fun _ run _ => Blind run where
  diverge _ := blind_diverge
  pure := blind_pure
  stop := blind_stop
  bind before later := before.bind later
  traced operation name ok _ _ blind := blind.traced operation name ok
  holding cell _ _ blind := blind.holding cell
  resolve := blind_resolve

section Factoring

variable {here there here' there' : Store}

/-- Two runs from two stores end in the same way, unless one of them stops. -/
def EndsAs (one other : Run α) (held : AddressSet) (here there : Store) : Prop :=
  one.Stops held here ∨ other.Stops held there ∨ (one held here).1 = (other held there).1

/-- Runs end as what is left of them after a first part. -/
theorem EndsAs.of_steps {one other left right : Run α} (begun : one held here = left held here')
    (alsoBegun : other held there = right held there') (ends : EndsAs left right held here' there') :
    EndsAs one other held here there := by
  unfold EndsAs Stops at ends ⊢
  rwa [begun, alsoBegun]

theorem Blind.endsAs {run : Run α} (blind : Blind run) (held : AddressSet) (store : Store)
    (log : TraceLog) : EndsAs run run held { store with log } store := by
  rcases blind held store log with stops | stops | ⟨outcome, after, other, ended, alsoEnded⟩
  · exact .inr (.inl stops)
  · exact .inl stops
  · exact .inr (.inr (by rw [ended, alsoEnded]))

/-- What follows a failure decides how alternatives end. -/
theorem EndsAs.onFailure {found one other : Run (Match α)}
    (ends : ∀ rest after, found held store = (.returned (.failure rest), after) →
      EndsAs one other held after after) :
    EndsAs (Run.onFailure found one) (Run.onFailure found other) held store store := by
  rcases begun : found held store with ⟨_ | fault | _, after⟩
  case stopped => exact .inl (Stops.bind ⟨fault, after, begun⟩ _)
  case diverged =>
    refine .inr (.inr ?_)
    rw [Run.onFailure, Run.onFailure, bind_of_diverged begun, bind_of_diverged begun]
  case returned result =>
  cases result with
  | success value rest =>
    refine .inr (.inr ?_)
    rw [onFailure_of_success begun, onFailure_of_success begun]
  | failure rest =>
    exact .of_steps (onFailure_of_failure begun) (onFailure_of_failure begun) (ends rest after begun)

variable {first : Run (Match α)} {second third : α → Input → Run (Match β)}

/-- A run that comes to the same match again goes on as it did the first time. -/
theorem endsAs_onSuccess_of_recurs {next : α → Input → Run (Match β)} {value : α} {rest : Input}
    (again : first.Recurs held store (.success value rest)) (blind : Blind (next value rest)) :
    EndsAs (onSuccess first next) (next value rest) held store store := by
  rcases again with stops | ⟨log, _, again⟩
  · exact .inl (stops.bind _)
  · exact .of_steps (onSuccess_of_success again) rfl (blind.endsAs held store log)

/-- A first part can be taken out of two alternatives. Done twice, it comes to the same match again, so the
alternatives end as they do when it is done once. -/
theorem onFailure_factored (repeatable : Repeatable first)
    (evolves : ∀ value rest, Evolves ∅ (second value rest))
    (blind : ∀ value rest, Blind (third value rest)) (held : AddressSet) (store : Store) :
    EndsAs (onFailure (onSuccess first second) (onSuccess first third))
      (onSuccess first fun value rest => onFailure (second value rest) (third value rest))
      held store store := by
  rcases begun : first held store with ⟨_ | fault | _, middle⟩
  case stopped => exact .inl ((Stops.bind ⟨fault, middle, begun⟩ _).bind _)
  case diverged =>
    have once : onSuccess first second held store = (.diverged, middle) := bind_of_diverged begun
    refine .inr (.inr ?_)
    rw [onFailure, bind_of_diverged once, onSuccess, bind_of_diverged begun]
  case returned found =>
  have later {after : Store} (step : Store.Later ∅ middle after) : first.Recurs held after found :=
    repeatable.recurs begun step
  cases found with
  | failure rest =>
    rcases later (.refl ∅ middle) with stops | ⟨log, _, again⟩
    · exact .inl (stops_bind_of_returned (onSuccess_of_failure begun) (stops.bind _))
    · refine .inr (.inr ?_)
      rw [onFailure_of_failure (onSuccess_of_failure begun), onSuccess_of_failure again,
        onSuccess_of_failure begun]
  | success value rest =>
    have chosen : onFailure (onSuccess first second) (onSuccess first third) held store =
        onFailure (second value rest) (onSuccess first third) held middle := by
      rw [onFailure, onFailure, bind_apply, bind_apply, onSuccess_of_success begun]
    refine .of_steps chosen (onSuccess_of_success begun) (.onFailure fun left after missed => ?_)
    -- The first part is done again where the alternative has failed, so later than the first time.
    have step : Store.Later ∅ middle after :=
      (evolves value rest).later (AddressSet.empty_subset held) missed
    exact endsAs_onSuccess_of_recurs (later step) (blind value rest)

end Factoring

end TwoWayGrammar.Run

namespace TwoWayGrammar.Grammar

theorem read_repeatable (fuel : Nat) (grammar : Grammar) (input : Input) :
    Run.Repeatable (grammar.read fuel input) :=
  read_compatible Run.repeatable_compatible (Nat.le_refl fuel) grammar input

theorem read_blind (fuel : Nat) (grammar : Grammar) (input : Input) :
    Run.Blind (grammar.read fuel input) :=
  read_compatible Run.blind_compatible (Nat.le_refl fuel) grammar input

end TwoWayGrammar.Grammar
