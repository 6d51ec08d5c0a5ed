import TwoWayGrammar.Proofs.Run.Compatible
import TwoWayGrammar.Proofs.Output.Quiet
import TwoWayGrammar.Proofs.Run.Steps
import TwoWayGrammar.Session.Report

namespace TwoWayGrammar

namespace TraceLog

theorem depth_put (log : TraceLog) (pieces : List Text) :
    (eitherWay (log.put pieces)).depth = log.depth := by
  unfold put
  split
  · split <;> rfl
  · rfl

/-- A refused entry leaves the depth. -/
theorem depth_of_enter_error {log next : TraceLog} {operation name : Text}
    (refused : log.enter operation name = .error next) : next.depth = log.depth := by
  have put := log.depth_put (entryLine log.depth operation name)
  unfold enter at refused
  cases written : log.put (entryLine log.depth operation name) with
  | ok after => simp [written, Except.map] at refused
  | error after =>
    rw [written] at put refused
    obtain rfl : after = next := by simpa [Except.map] using refused
    exact put

theorem depth_of_enter_ok {log next : TraceLog} {operation name : Text}
    (opened : log.enter operation name = .ok next) : next.depth = log.depth + 1 := by
  have put := log.depth_put (entryLine log.depth operation name)
  unfold enter at opened
  cases written : log.put (entryLine log.depth operation name) with
  | error after => simp [written, Except.map] at opened
  | ok after =>
    rw [written] at put opened
    obtain rfl : { after with depth := after.depth + 1 } = next := by simpa [Except.map] using opened
    exact congrArg (· + 1) put

/-- An exit goes one level up, whether its line is written or refused. -/
theorem depth_leave (log : TraceLog) (operation name : Text) (ok : Bool) :
    (eitherWay (log.leave operation name ok)).depth = log.depth - 1 :=
  depth_put { log with depth := log.depth - 1 } _

end TraceLog

namespace Run

variable {α β : Type}

/-- A run that ends leaves the depth of the log. Whether the sink refuses does not change at all. -/
def Levels (run : Run α) : Prop :=
  ∀ held store, (run held store).2.log.sink.refuses = store.log.sink.refuses ∧
    ((run held store).1 ≠ .diverged → (run held store).2.log.depth = store.log.depth)

theorem levels_of_log {run : Run α} (same : ∀ held store, (run held store).2.log = store.log) :
    Levels run := fun held store => by simp [same held store]

theorem levels_pure (result : α) : Levels (pure result : Run α) := levels_of_log fun _ _ => rfl

theorem levels_stop (fault : Fault) : Levels (stop fault : Run α) := levels_of_log fun _ _ => rfl

theorem levels_current : Levels current := levels_of_log fun _ _ => rfl

theorem levels_modify {change : Store → Store} (same : ∀ store, (change store).log = store.log) :
    Levels (modify change) := levels_of_log fun _ store => same store

theorem levels_settle : Levels settle := levels_of_log fun held store => store.log_collect held

theorem Levels.bind {first : Run α} {next : α → Run β} (before : Levels first)
    (later : ∀ result, Levels (next result)) : Levels (first >>= next) := by
  intro held store
  obtain ⟨refuses, depth⟩ := before held store
  rcases found : first held store with ⟨outcome, middle⟩
  rw [found] at refuses depth
  cases outcome with
  | returned result =>
    rw [bind_of_returned found]
    obtain ⟨laterRefuses, laterDepth⟩ := later result held middle
    exact ⟨laterRefuses.trans refuses, fun ends => (laterDepth ends).trans (depth (by simp))⟩
  | stopped fault =>
    rw [bind_of_stopped found]
    exact ⟨refuses, fun _ => depth (by simp)⟩
  | diverged =>
    rw [bind_of_diverged found]
    exact ⟨refuses, fun ends => absurd rfl ends⟩

theorem Levels.attempt {run : Run α} (levels : Levels run) : Levels (Run.attempt run) := by
  intro held store
  have kept := levels held store
  rw [attempt_store]
  refine ⟨kept.1, fun ends => kept.2 fun diverged => ends ?_⟩
  rw [attempt_of_diverged (Prod.ext diverged rfl)]

theorem Levels.holding (cells : AddressSet) {run : Run α} (levels : Levels run) :
    Levels (Run.holding cells run) := by
  intro held store
  have kept := levels (held ∪ cells) store
  obtain ⟨same, after | after⟩ := Run.holding_apply cells run held store
  · rw [same, after]
    exact kept
  · rw [same, after, Store.log_collect]
    exact kept

/-- Once the run inside has ended, a traced run leaves the log behind its exit. -/
theorem log_of_traced {operation name : Text} (ok : α → Bool) {run : Run α} {held : AddressSet}
    {store left : Store} {entered : TraceLog} {outcome : Outcome α}
    (opened : store.log.enter operation name = .ok entered)
    (ran : run held { store with log := entered } = (outcome, left)) (ends : outcome ≠ .diverged) :
    ∃ flag, (Run.traced operation name ok run held store).2.log =
      eitherWay (left.log.leave operation name flag) := by
  rw [traced_apply, opened]
  dsimp only
  rw [ran]
  cases outcome with
  | returned result =>
    refine ⟨ok result, ?_⟩
    dsimp only
    cases left.log.leave operation name (ok result) <;> rfl
  | stopped fault =>
    refine ⟨false, ?_⟩
    dsimp only
    cases left.log.leave operation name false <;> rfl
  | diverged => exact absurd rfl ends

/-- The exit line of a traced run closes the level that its entry line opened. A refused entry opens
none, and a refused exit has closed its level before it was written. -/
theorem Levels.traced (operation name : Text) (ok : α → Bool) {run : Run α} (levels : Levels run) :
    Levels (Run.traced operation name ok run) := by
  intro held store
  have enters := store.log.refuses_enter operation name
  cases opened : store.log.enter operation name with
  | error log =>
    rw [opened] at enters
    rw [traced_apply, opened]
    exact ⟨enters, fun _ => TraceLog.depth_of_enter_error opened⟩
  | ok entered =>
    rw [opened] at enters
    have deeper := TraceLog.depth_of_enter_ok opened
    obtain ⟨refuses, depth⟩ := levels held { store with log := entered }
    rcases ran : run held { store with log := entered } with ⟨outcome, left⟩
    rw [ran] at refuses depth
    by_cases ends : outcome = .diverged
    · subst ends
      rw [traced_apply, opened]
      dsimp only
      rw [ran]
      exact ⟨refuses.trans enters, fun ends => absurd rfl ends⟩
    · obtain ⟨flag, leaves⟩ := log_of_traced ok opened ran ends
      rw [leaves, TraceLog.refuses_leave, TraceLog.depth_leave, depth ends]
      refine ⟨refuses.trans enters, fun _ => ?_⟩
      change entered.depth - 1 = store.log.depth
      omega

/-- Using a cell does not log. -/
theorem levels_resolve (cell : Address) : Levels (resolve cell) := by
  refine levels_of_log fun held store => ?_
  rcases resolve_cases cell held store with ⟨built, _, same⟩ | ⟨factory, pending, same⟩ |
    ⟨fault, same⟩
  · rw [same]
  · obtain ⟨middle, _, _, log, _, _, ⟨fault, stopped⟩ | ⟨built, _, returned⟩⟩ :=
      force_cases pending held
    · rw [same, stopped, log]
    · rw [same, returned, Store.log_collect, log]
  · rw [same]

theorem levels_compatible : Compatible fun _ run _ => Levels run where
  diverge _ := levels_of_log fun _ _ => rfl
  pure := levels_pure
  stop := levels_stop
  bind before later := before.bind later
  traced operation name ok _ _ levels := levels.traced operation name ok
  holding cell _ _ levels := levels.holding {cell}
  resolve := levels_resolve

end Run

open Run

theorem Grammar.read_levels (fuel : Nat) (grammar : Grammar) (input : Input) :
    Levels (grammar.read fuel input) :=
  read_compatible levels_compatible (Nat.le_refl fuel) grammar input

theorem Grammar.write_levels (fuel : Nat) (grammar : Grammar) (value : Value) (rest : Input) :
    Levels (grammar.write fuel value rest) :=
  write_compatible levels_compatible (Nat.le_refl fuel) grammar value rest

theorem Definition.build_levels (definition : Definition) (scope : Scope) :
    Levels (definition.build scope) :=
  levels_of_log fun held store => ((definition.build_adds scope 0) held store (Nat.zero_le _)).2.log

namespace Step

/-- A direct call goes to the log itself. -/
def isDirect : Step → Bool
  | enter _ _ => true
  | leave _ _ _ => true
  | _ => false

/-- A direct entry that returned counts one level down, and a direct exit counts one level up, but
not beyond the top. Nothing else counts. -/
def depthAfter (depth : Nat) : Step → Outcome Answer → Nat
  | enter _ _, .returned _ => depth + 1
  | leave _ _ _, _ => depth - 1
  | _, _ => depth

theorem levels_carried (fuel : Nat) : Carried fuel fun run => Levels run where
  pure := levels_pure
  stop := levels_stop
  current := levels_current
  bind := Levels.bind
  attempt := Levels.attempt
  holding cells _ levels := levels.holding cells
  settle := levels_settle
  build := Definition.build_levels
  read := Grammar.read_levels fuel
  write := Grammar.write_levels fuel
  define _ definition := (definition.build_levels []).bind fun _ =>
    (levels_modify fun _ => rfl).bind fun _ => levels_pure _
  erase _ := levels_modify fun _ => rfl
  enable _ := fun _ _ => ⟨rfl, fun _ => rfl⟩

/-- A step that makes no direct call leaves the depth. -/
theorem run_levels (fuel : Nat) {step : Step} (indirect : step.isDirect = false) :
    Levels (step.run fuel) := by
  refine (levels_carried fuel).step step ?_ ?_
  · rintro operation name rfl
    simp [isDirect] at indirect
  · rintro operation name ok rfl
    simp [isDirect] at indirect

/-- A direct entry is a change of the log, and a refusal of it is the fault. -/
theorem run_enter (fuel : Nat) (operation name : Text) (held : AddressSet) (store : Store) :
    (enter operation name).run fuel held store =
      match store.log.enter operation name with
      | .ok log => (.returned .done, { store with log })
      | .error log => (.stopped .sink, { store with log }) := by
  change (logging (·.enter operation name) >>= fun _ => pure .done : Run Answer) held store = _
  cases opened : store.log.enter operation name with
  | ok log => exact bind_of_returned (logging_of_ok (·.enter operation name) opened)
  | error log => exact bind_of_stopped (logging_of_error (·.enter operation name) opened)

/-- A direct exit is a change of the log, and a refusal of it is the fault. -/
theorem run_leave (fuel : Nat) (operation name : Text) (ok : Bool) (held : AddressSet)
    (store : Store) :
    (leave operation name ok).run fuel held store =
      match store.log.leave operation name ok with
      | .ok log => (.returned .done, { store with log })
      | .error log => (.stopped .sink, { store with log }) := by
  change (logging (·.leave operation name ok) >>= fun _ => pure .done : Run Answer) held store = _
  cases closed : store.log.leave operation name ok with
  | ok log => exact bind_of_returned (logging_of_ok (·.leave operation name ok) closed)
  | error log => exact bind_of_stopped (logging_of_error (·.leave operation name ok) closed)

/-- Over an enabled log a direct entry sends its line, indented by the depth, to the sink. -/
theorem sink_of_enter (fuel : Nat) (held : AddressSet) (operation name : Text) {store : Store}
    (enabled : store.log.enabled = true) :
    ((enter operation name).run fuel held store).2.log.sink =
      eitherWay (store.log.sink.writeAll (TraceLog.entryLine store.log.depth operation name)) := by
  rw [run_enter, TraceLog.enter, TraceLog.put, if_pos enabled]
  cases store.log.sink.writeAll (TraceLog.entryLine store.log.depth operation name) <;> rfl

/-- A step that ends changes the depth as its direct call says. -/
theorem depth_of_run {fuel : Nat} {step : Step} {held : AddressSet} {store after : Store}
    {outcome : Outcome Answer} (ran : step.run fuel held store = (outcome, after))
    (ends : outcome ≠ .diverged) : after.log.depth = step.depthAfter store.log.depth outcome := by
  cases direct : step.isDirect with
  | false =>
    have kept := (run_levels fuel direct held store).2
    rw [ran] at kept
    rw [kept ends]
    cases step <;> first | rfl | simp [isDirect] at direct
  | true =>
    cases step with
    | enter operation name =>
      rw [run_enter] at ran
      cases opened : store.log.enter operation name with
      | ok log =>
        rw [opened] at ran
        obtain ⟨rfl, rfl⟩ := Prod.mk.inj ran
        exact TraceLog.depth_of_enter_ok opened
      | error log =>
        rw [opened] at ran
        obtain ⟨rfl, rfl⟩ := Prod.mk.inj ran
        exact TraceLog.depth_of_enter_error opened
    | leave operation name ok =>
      have level := store.log.depth_leave operation name ok
      rw [run_leave] at ran
      cases closed : store.log.leave operation name ok with
      | ok log =>
        rw [closed] at ran level
        obtain ⟨rfl, rfl⟩ := Prod.mk.inj ran
        exact level
      | error log =>
        rw [closed] at ran level
        obtain ⟨rfl, rfl⟩ := Prod.mk.inj ran
        exact level
    | _ => simp [isDirect] at direct

/-- Over a sink that does not refuse, a direct call returns, and no step makes the sink refuse. -/
theorem quiet_of_run {fuel : Nat} {step : Step} {held : AddressSet} {store after : Store}
    {outcome : Outcome Answer} (quiet : store.Quiet)
    (ran : step.run fuel held store = (outcome, after)) :
    after.Quiet ∧ (step.isDirect = true → outcome = .returned .done) := by
  cases direct : step.isDirect with
  | false =>
    have kept := (run_levels fuel direct held store).1
    rw [ran] at kept
    exact ⟨kept.trans quiet, by simp⟩
  | true =>
    cases step with
    | enter operation name =>
      have same := store.log.refuses_enter operation name
      obtain ⟨log, opened⟩ := store.log.enter_of_quiet quiet operation name
      rw [opened] at same
      rw [run_enter, opened] at ran
      obtain ⟨rfl, rfl⟩ := Prod.mk.inj ran
      exact ⟨same.trans quiet, fun _ => rfl⟩
    | leave operation name ok =>
      have same := store.log.refuses_leave operation name ok
      obtain ⟨log, closed⟩ := store.log.leave_of_quiet quiet operation name ok
      rw [closed] at same
      rw [run_leave, closed] at ran
      obtain ⟨rfl, rfl⟩ := Prod.mk.inj ran
      exact ⟨same.trans quiet, fun _ => rfl⟩
    | _ => simp [isDirect] at direct

end Step

namespace Session

/-- A step that was carried out, with its outcome. -/
abbrev Event := Step × Outcome Answer

/-- A history leads from one store to another. Each step ends and the next one follows it, whether it
returned or stopped. -/
inductive History : Store → List Event → Store → Prop
  | nil (store : Store) : History store [] store
  | cons {store after last : Store} {step : Step} {outcome : Outcome Answer} {events : List Event}
      (fuel : Nat) (ran : step.run fuel ∅ (handOver store) = (outcome, after))
      (ends : outcome ≠ .diverged) (others : History (after.collect ∅) events last) :
      History store ((step, outcome) :: events) last

/-- The depth that the direct calls among the events lead to. -/
def depthAfter (depth : Nat) (events : List Event) : Nat :=
  events.foldl (fun level event => event.1.depthAfter level event.2) depth

/-- The direct calls among the events. -/
def directCalls (events : List Event) : List Event := events.filter fun event => event.1.isDirect

theorem depthAfter_directCalls (depth : Nat) (events : List Event) :
    depthAfter depth (directCalls events) = depthAfter depth events := by
  induction events generalizing depth with
  | nil => rfl
  | cons event events ih =>
    obtain ⟨step, outcome⟩ := event
    cases direct : step.isDirect with
    | true =>
      simp only [directCalls, List.filter_cons, direct, if_true]
      exact ih _
    | false =>
      have level : step.depthAfter depth outcome = depth := by
        cases step <;> first | rfl | simp [Step.isDirect] at direct
      have same : depthAfter depth ((step, outcome) :: events) = depthAfter depth events := by
        rw [depthAfter, List.foldl_cons, level]
        rfl
      simp only [directCalls, List.filter_cons, direct, Bool.false_eq_true, if_false, same]
      exact ih depth

theorem History.depth {store last : Store} {events : List Event}
    (history : History store events last) :
    last.log.depth = depthAfter store.log.depth events := by
  induction history with
  | nil store => rfl
  | cons fuel ran ends others ih =>
    rw [ih, Store.log_collect, Step.depth_of_run ran ends]
    rfl

/-- Over a sink that does not refuse, every direct call returns. -/
theorem History.directCalls_of_quiet {store last : Store} {events : List Event}
    (history : History store events last) (quiet : store.Quiet) :
    directCalls events =
      ((events.map Prod.fst).filter Step.isDirect).map fun step => (step, .returned .done) := by
  induction history with
  | nil store => rfl
  | @cons store after last step outcome events fuel ran ends others ih =>
    obtain ⟨calm, done⟩ := Step.quiet_of_run (show (handOver store).Quiet from quiet) ran
    have further := ih (by rwa [Store.Quiet, Store.log_collect])
    rw [directCalls] at further ⊢
    cases direct : step.isDirect with
    | true => simp [direct, further, done direct]
    | false => simp [direct, further]

/-- The depth of the log after any history is that of its direct calls alone, counted from the depth
before it. No run of a grammar changes the depth, however it ends, and neither does muting. -/
theorem depth_of_history :
    (∀ fuel (grammar : Grammar) input held store outcome after,
      grammar.read fuel input held store = (outcome, after) → outcome ≠ .diverged →
        after.log.depth = store.log.depth) ∧
    (∀ fuel (grammar : Grammar) value rest held store outcome after,
      grammar.write fuel value rest held store = (outcome, after) → outcome ≠ .diverged →
        after.log.depth = store.log.depth) ∧
    (∀ store events last, History store events last →
      let depth := depthAfter store.log.depth (directCalls events)
      last.log.depth = depth ∧
        ∀ fuel held operation name, last.log.enabled = true →
          ((Step.enter operation name).run fuel held last).2.log.sink =
            eitherWay (last.log.sink.writeAll (TraceLog.entryLine depth operation name))) ∧
    ∀ store events last other others final, History store events last → History other others final →
      store.log.depth = other.log.depth → store.Quiet → other.Quiet →
      (events.map Prod.fst).filter Step.isDirect = (others.map Prod.fst).filter Step.isDirect →
        last.log.depth = final.log.depth := by
  refine ⟨?_, ?_, ?_, ?_⟩
  · intro fuel grammar input held store outcome after ran ends
    have kept := (grammar.read_levels fuel input held store).2
    rw [ran] at kept
    exact kept ends
  · intro fuel grammar value rest held store outcome after ran ends
    have kept := (grammar.write_levels fuel value rest held store).2
    rw [ran] at kept
    exact kept ends
  · intro store events last history
    rw [depthAfter_directCalls, ← history.depth]
    exact ⟨rfl, fun fuel held operation name enabled =>
      Step.sink_of_enter fuel held operation name enabled⟩
  · intro store events last other others final history otherHistory depth quiet otherQuiet same
    rw [history.depth, otherHistory.depth, ← depthAfter_directCalls,
      ← depthAfter_directCalls other.log.depth, history.directCalls_of_quiet quiet,
      otherHistory.directCalls_of_quiet otherQuiet, same, depth]

/-- Steps over a sink that refuses what is beyond its room: a direct entry, a muted run, a run whose
entry line is refused, a refused direct entry and a refused direct exit. -/
def refusedEvents : List Event :=
  let item := Definition.traced ['b'] (.primitive .element)
  [(.enter "match".toList ['a'], .returned .done),
    (.enable false, .returned .done),
    (.read item [.char 'x'], .returned (.read (.success (.char 'x') []))),
    (.enable true, .returned .done),
    (.read item [.char 'x'], .stopped .sink),
    (.enter "match".toList ['c'], .stopped .sink),
    (.leave "match".toList ['a'] true, .stopped .sink)]

theorem history_refusedEvents : ∃ last, History (Store.new (.limited 12 true)) refusedEvents last :=
  ⟨_, .cons 0 rfl (by simp) (.cons 0 rfl (by simp) (.cons 0 rfl (by simp) (.cons 0 rfl (by simp)
    (.cons 0 rfl (by simp) (.cons 0 rfl (by simp) (.cons 0 rfl (by simp) (.nil _)))))))⟩

/-- The refused entries count nothing and the refused exit counts, so the log is at the top again. -/
theorem depth_of_refusedEvents :
    ∃ last, History (Store.new (.limited 12 true)) refusedEvents last ∧ last.log.depth = 0 := by
  obtain ⟨last, history⟩ := history_refusedEvents
  exact ⟨last, history, (depth_of_history.2.2.1 _ _ _ history).1⟩

end Session

end TwoWayGrammar
