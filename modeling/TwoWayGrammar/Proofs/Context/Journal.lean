import TwoWayGrammar.Proofs.Context.Filling
import TwoWayGrammar.Proofs.Run.Mapping
import TwoWayGrammar.Proofs.Store.History

namespace TwoWayGrammar

/-- A part of a filled context reads or writes, or a combinator refuses what it is given. -/
inductive SubRun where
  | read (place : Address) (input : Input)
  | write (place : Address) (value : Value) (rest : Input)
  | refuse (fault : Fault)

/-- An entry of a journal tells what ran and from which store. -/
structure JournalEntry where
  subRun : SubRun
  store : Store

/-- A journaled run is a run with what it enters in the journal. -/
structure Journal (α : Type) where
  run : Run α
  entries : AddressSet → Store → List JournalEntry

/-- A part runs as the entry tells. -/
def SubRun.run (parts : Address → Grammar) (fuel : Nat) : SubRun → Run Unit
  | .read place input => (fun _ => ()) <$> (parts place).read fuel input
  | .write place value rest => (fun _ => ()) <$> (parts place).write fuel value rest
  | .refuse fault => Run.stop fault

/-- What ran came to the outcome and led to the store after it. -/
def JournalEntry.EndsWith (parts : Address → Grammar) (fuel : Nat) (held : AddressSet)
    (entry : JournalEntry) (outcome : Outcome Unit) (after : Store) : Prop :=
  entry.subRun.run parts fuel held entry.store = (outcome, after)

/-- Nothing happens but that lines of traces are logged. -/
inductive Traces : Store → Store → Prop
  | none (store : Store) : Traces store store
  | enter {store after : Store} {operation name : Text} {log : TraceLog} (traces : Traces store after)
      (opened : after.log.enter operation name = .ok log) : Traces store { after with log := log }
  | leave {store after : Store} {operation name : Text} {ok : Bool} {log : TraceLog}
      (traces : Traces store after) (closed : after.log.leave operation name ok = .ok log) :
      Traces store { after with log := log }

/-- Nothing happens but that traces are left, each with a failure. -/
inductive Unwinds : Store → Store → Prop
  | none (store : Store) : Unwinds store store
  | leave {store after : Store} {operation name : Text} {log : TraceLog} (unwinds : Unwinds store after)
      (closed : after.log.leave operation name false = .ok log) : Unwinds store { after with log := log }

/-- The entries account for all that happens from a store on. Each part runs from where the one before it
returned, with nothing but traces in between. Behind a part that stopped with a fault nothing runs, and traces
are only left. -/
inductive Accounts (parts : Address → Grammar) (fuel : Nat) (held : AddressSet) :
    Store → List JournalEntry → Outcome Unit → Store → Prop
  | returned {store after : Store} (traces : Traces store after) :
      Accounts parts fuel held store [] (.returned ()) after
  | exhausted {store after : Store} (traces : Traces store after) :
      Accounts parts fuel held store [] .diverged after
  | diverged {store after : Store} {last : JournalEntry} (traces : Traces store last.store)
      (ends : last.EndsWith parts fuel held .diverged after) :
      Accounts parts fuel held store [last] .diverged after
  | stopped {store left after : Store} {last : JournalEntry} {fault : Fault}
      (traces : Traces store last.store) (ends : last.EndsWith parts fuel held (.stopped fault) left)
      (unwinds : Unwinds left after) : Accounts parts fuel held store [last] (.stopped fault) after
  | further {store middle after : Store} {entry : JournalEntry} {entries : List JournalEntry}
      {outcome : Outcome Unit} (traces : Traces store entry.store)
      (ends : entry.EndsWith parts fuel held (.returned ()) middle)
      (others : Accounts parts fuel held middle entries outcome after) :
      Accounts parts fuel held store (entry :: entries) outcome after

variable {parts : Address → Grammar} {fuel : Nat} {held : AddressSet} {store middle after : Store}
  {entries earlier : List JournalEntry} {outcome : Outcome Unit} {fault : Fault} {α β : Type}

theorem Traces.trans {next : Store} (before : Traces store middle) (behind : Traces middle next) :
    Traces store next := by
  induction behind with
  | none => exact before
  | enter _ opened ih => exact .enter ih opened
  | leave _ closed ih => exact .leave ih closed

namespace Accounts

/-- Traces may be logged before everything else. -/
theorem after_traces (traces : Traces store middle)
    (accounts : Accounts parts fuel held middle entries outcome after) :
    Accounts parts fuel held store entries outcome after := by
  cases accounts with
  | returned others => exact .returned (traces.trans others)
  | exhausted others => exact .exhausted (traces.trans others)
  | diverged others ends => exact .diverged (traces.trans others) ends
  | stopped others ends unwinds => exact .stopped (traces.trans others) ends unwinds
  | further others ends behind => exact .further (traces.trans others) ends behind

/-- Behind what returned, the account goes on. -/
theorem append (before : Accounts parts fuel held store earlier (.returned ()) middle)
    (behind : Accounts parts fuel held middle entries outcome after) :
    Accounts parts fuel held store (earlier ++ entries) outcome after := by
  generalize returned : Outcome.returned () = ended at before
  induction before with
  | returned traces => exact behind.after_traces traces
  | further traces ends _ ih => exact .further traces ends (ih behind returned)
  | exhausted => simp at returned
  | diverged => simp at returned
  | stopped => simp at returned

/-- What returned may leave a trace in the end. -/
theorem leave_returned {operation name : Text} {ok : Bool} {log : TraceLog}
    (accounts : Accounts parts fuel held store entries (.returned ()) after)
    (closed : after.log.leave operation name ok = .ok log) :
    Accounts parts fuel held store entries (.returned ()) { after with log := log } := by
  have final := accounts.append (.returned (.leave (.none after) closed))
  rwa [List.append_nil] at final

/-- A fault passes through a trace, which is left with a failure. -/
theorem leave_stopped {operation name : Text} {log : TraceLog}
    (accounts : Accounts parts fuel held store entries (.stopped fault) after)
    (closed : after.log.leave operation name false = .ok log) :
    Accounts parts fuel held store entries (.stopped fault) { after with log := log } := by
  generalize stopped : Outcome.stopped fault = ended at accounts ⊢
  induction accounts with
  | stopped traces ends unwinds => exact .stopped traces ends (.leave unwinds closed)
  | further traces ends _ ih => exact .further traces ends (ih closed stopped)
  | returned => simp at stopped
  | exhausted => simp at stopped
  | diverged => simp at stopped

/-- A single entry accounts for what it tells. -/
theorem single {subRun : SubRun} {ran : Outcome α × Store}
    (same : subRun.run parts fuel held store = (ran.1.map fun _ => (), ran.2)) :
    Accounts parts fuel held store [⟨subRun, store⟩] (ran.1.map fun _ => ()) ran.2 := by
  obtain ⟨result | fault | _, after⟩ := ran
  · exact .further (.none store) same (.returned (.none after))
  · exact .stopped (.none store) same (.none after)
  · exact .diverged (.none store) same

/-- A context stops with the fault of the last part that ran, and the others returned before. -/
theorem exists_last (accounts : Accounts parts fuel held store entries (.stopped fault) after) :
    ∃ earlier last left, entries = earlier ++ [last] ∧
      (∀ entry ∈ earlier, ∃ next, entry.EndsWith parts fuel held (.returned ()) next) ∧
        last.EndsWith parts fuel held (.stopped fault) left ∧ Unwinds left after := by
  generalize stopped : Outcome.stopped fault = ended at accounts
  induction accounts with
  | @stopped store left after last other traces ends unwinds =>
    obtain rfl := Outcome.stopped.inj stopped
    exact ⟨[], last, left, rfl, by simp, ends, unwinds⟩
  | @further store middle after entry entries outcome traces ends others ih =>
    obtain ⟨earlier, last, left, rfl, each, stops, unwinds⟩ := ih stopped
    refine ⟨entry :: earlier, last, left, rfl, fun one member => ?_, stops, unwinds⟩
    rcases List.mem_cons.mp member with rfl | member
    · exact ⟨middle, ends⟩
    · exact each one member
  | returned => simp at stopped
  | exhausted => simp at stopped
  | diverged => simp at stopped

/-- A fault of anything that ran is the fault of the context. -/
theorem stopped_of_mem {entry : JournalEntry} {left : Store}
    (accounts : Accounts parts fuel held store entries outcome after) (member : entry ∈ entries)
    (stops : entry.EndsWith parts fuel held (.stopped fault) left) : outcome = .stopped fault := by
  have clash {other : Outcome Unit} {next : Store} (ends : entry.EndsWith parts fuel held other next) :
      other = .stopped fault := by
    unfold JournalEntry.EndsWith at ends stops
    rw [ends] at stops
    exact congrArg Prod.fst stops
  induction accounts with
  | returned => simp at member
  | exhausted => simp at member
  | diverged _ ends =>
    obtain rfl := List.mem_singleton.mp member
    exact clash ends
  | stopped _ ends _ =>
    obtain rfl := List.mem_singleton.mp member
    exact clash ends
  | further _ ends _ ih =>
    rcases List.mem_cons.mp member with rfl | member
    · simpa using clash ends
    · exact ih member

end Accounts

namespace Journal

instance : Monad Journal where
  pure result := ⟨pure result, fun _ _ => []⟩
  bind first next :=
    { run := first.run >>= fun result => (next result).run
      entries := fun held store => first.entries held store ++
        match first.run held store with
        | (.returned result, middle) => (next result).entries held middle
        | _ => [] }

instance : Faulting Journal where
  stop fault := ⟨Run.stop fault, fun _ store => [⟨.refuse fault, store⟩]⟩
  diverge := ⟨Run.diverge, fun _ _ => []⟩

/-- One entry for one run. -/
def record (subRun : SubRun) (run : Run α) : Journal α := ⟨run, fun _ store => [⟨subRun, store⟩]⟩

/-- A trace is not entered in the journal, but what runs inside it is. -/
def traced (operation name : Text) (ok : α → Bool) (journal : Journal α) : Journal α where
  run := Run.traced operation name ok journal.run
  entries held store :=
    match store.log.enter operation name with
    | .ok entered => journal.entries held { store with log := entered }
    | .error _ => []

/-- The places of a context run as the parts do, and enter this in the journal. -/
def filled (parts : Address → Grammar) (fuel : Nat) : Interpretation Journal :=
  let places (place : Address) : Behaviour Journal :=
    ⟨fun input => record (.read place input) ((parts place).read fuel input),
      fun value rest => record (.write place value rest) ((parts place).write fuel value rest)⟩
  { loop := fun item input => Behaviour.readMany item (input.length + 1 + fuel) input
    traced := fun name body =>
      ⟨fun input => traced "match".toList name Match.accepted (body.read input),
        fun value rest => traced "construct".toList name (fun _ => true) (body.write value rest)⟩
    shared := places
    handle := places }

/-- A journal keeps to a run when it is a journal of that run and, over a log that refuses nothing, its
entries account for what the run comes to. -/
structure Keeps (parts : Address → Grammar) (fuel : Nat) (held : AddressSet) (α : Type) (run : Run α)
    (journal : Journal α) : Prop where
  run_eq : journal.run = run
  evolves : Run.Evolves held run
  accounts : ∀ {store}, store.Quiet → Accounts parts fuel held store (journal.entries held store)
    ((run held store).1.map fun _ => ()) (run held store).2

theorem Keeps.quiet {run : Run α} {journal : Journal α} (keeps : Keeps parts fuel held α run journal)
    (quiet : store.Quiet) : (run held store).2.Quiet :=
  (keeps.evolves held (AddressSet.Subset.refl held) store).quiet quiet

theorem keeps_record {subRun : SubRun} {run : Run α} (same : subRun.run parts fuel = (fun _ => ()) <$> run)
    (evolves : Run.Evolves held run) : Keeps parts fuel held α run (record subRun run) where
  run_eq := rfl
  evolves := evolves
  accounts {store} _ := .single (by rw [same, Run.map_apply])

theorem keeps_pure (result : α) : Keeps parts fuel held α (pure result) (pure result) where
  run_eq := rfl
  evolves := Run.evolves_pure result
  accounts {store} _ := .returned (.none store)

theorem keeps_stop (fault : Fault) : Keeps parts fuel held α (Run.stop fault) (Faulting.stop fault) where
  run_eq := rfl
  evolves := Run.evolves_stop fault
  accounts {store} _ := .stopped (.none store) rfl (.none store)

theorem keeps_diverge : Keeps parts fuel held α Run.diverge Faulting.diverge where
  run_eq := rfl
  evolves _ _ store := .refl held store
  accounts {store} _ := .exhausted (.none store)

/-- Behind a run that returned the next one is entered, and behind any other nothing is. -/
theorem Keeps.bind {run : Run α} {journal : Journal α} {next : α → Run β}
    {following : α → Journal β} (keeps : Keeps parts fuel held α run journal)
    (further : ∀ result, Keeps parts fuel held β (next result) (following result)) :
    Keeps parts fuel held β (run >>= next) (journal >>= following) where
  run_eq := by
    change journal.run >>= (fun result => (following result).run) = run >>= next
    rw [keeps.run_eq]
    exact bind_congr fun result => (further result).run_eq
  evolves := keeps.evolves.bind fun result => (further result).evolves
  accounts {store} quiet := by
    have reached := keeps.quiet quiet
    have before := keeps.accounts quiet
    change Accounts parts fuel held store (journal.entries held store ++ _) _ _
    rw [keeps.run_eq, Run.bind_apply]
    generalize run held store = ran at before reached
    obtain ⟨result | fault | _, middle⟩ := ran
    · exact before.append ((further result).accounts reached)
    · rw [List.append_nil]
      exact before
    · rw [List.append_nil]
      exact before

theorem keeps_respects : Behaviour.Respects (Keeps parts fuel held) where
  pure := keeps_pure
  stop := keeps_stop
  bind := Keeps.bind

/-- A fault leaves the trace before it goes on. -/
theorem Keeps.traced (operation name : Text) (ok : α → Bool) {run : Run α} {journal : Journal α}
    (keeps : Keeps parts fuel held α run journal) :
    Keeps parts fuel held α (Run.traced operation name ok run) (journal.traced operation name ok) where
  run_eq := congrArg (Run.traced operation name ok) keeps.run_eq
  evolves := keeps.evolves.traced operation name ok
  accounts {store} quiet := by
    obtain ⟨entered, opened⟩ := store.log.enter_of_quiet quiet operation name
    have step : Store.Later held store { store with log := entered } := Store.later_of_enter opened
    have inside := step.quiet quiet
    have reached := keeps.quiet inside
    have entering : Traces store { store with log := entered } := .enter (.none store) opened
    have account := (keeps.accounts inside).after_traces entering
    simp only [Journal.traced, Run.traced_apply, opened]
    generalize run held { store with log := entered } = ran at account reached
    obtain ⟨result | fault | _, left⟩ := ran
    · obtain ⟨log, closed⟩ := left.log.leave_of_quiet reached operation name (ok result)
      simp only [closed]
      exact account.leave_returned closed
    · obtain ⟨log, closed⟩ := left.log.leave_of_quiet reached operation name false
      simp only [closed]
      exact account.leave_stopped closed
    · exact account

theorem filled_keeps (parts : Address → Grammar) (fuel : Nat) (held : AddressSet) :
    (Run.filled parts fuel).Related (Keeps parts fuel held) (filled parts fuel) := by
  have places (place : Address) :
      ((parts place).runs fuel).Related (Keeps parts fuel held) ((filled parts fuel).shared place) :=
    ⟨fun input => keeps_record rfl (Grammar.read_evolves held fuel (parts place) input),
      fun value rest => keeps_record rfl (Grammar.write_evolves held fuel (parts place) value rest)⟩
  refine ⟨fun {item other} items input => ?_, fun name {_ _} bodies => ?_, places, places⟩
  · have loops := keeps_respects.readMany items 0 (fun _ => keeps_diverge) (input.length + 1 + fuel) input
    rw [Behaviour.readMany_run] at loops
    exact loops
  · exact ⟨fun input => (bodies.read input).traced _ name _,
      fun value rest => (bodies.write value rest).traced _ name _⟩

end Journal

namespace Grammar

/-- The behaviour of a context that is filled with the parts, with the journal of what they do. -/
def journal (parts : Address → Grammar) (fuel : Nat) (context : Grammar) : Behaviour Journal :=
  context.behaviour (Journal.filled parts fuel)

/-- The journal of a filled context journals its runs and accounts for what they come to. -/
theorem journal_keeps (parts : Address → Grammar) (fuel : Nat) (held : AddressSet) (context : Grammar) :
    ((context.fill parts).runs fuel).Related (Journal.Keeps parts fuel held)
      (context.journal parts fuel) := by
  rw [runs_fill]
  exact behaviour_related Journal.keeps_respects (Journal.filled_keeps parts fuel held) context

end Grammar

end TwoWayGrammar
