import TwoWayGrammar.Proofs.Run.Inversion

namespace TwoWayGrammar

/-- Success and refusal of a write both hold what comes next. -/
def eitherWay {σ : Type} : Except σ σ → σ
  | .ok next => next
  | .error next => next

namespace Sink

theorem refuses_write (sink : Sink) (piece : Text) :
    (eitherWay (sink.write piece)).refuses = sink.refuses := by
  unfold write deny
  repeat' split
  all_goals rfl

theorem refuses_writeAll (sink : Sink) (pieces : List Text) :
    (eitherWay (sink.writeAll pieces)).refuses = sink.refuses := by
  induction pieces generalizing sink with
  | nil => rfl
  | cons piece pieces ih =>
    have step := sink.refuses_write piece
    rw [writeAll_cons]
    cases written : sink.write piece with
    | ok next =>
      rw [written] at step
      exact (ih next).trans step
    | error next =>
      rw [written] at step
      exact step

/-- A sink that refuses nothing takes every piece or drops it. -/
theorem write_of_quiet (sink : Sink) (quiet : sink.refuses = false) (piece : Text) :
    ∃ next, sink.write piece = .ok next := by
  unfold write deny take
  rw [quiet]
  dsimp only
  repeat' split
  all_goals first | exact ⟨_, rfl⟩ | simp_all

theorem writeAll_of_quiet (sink : Sink) (quiet : sink.refuses = false) (pieces : List Text) :
    ∃ next, sink.writeAll pieces = .ok next := by
  induction pieces generalizing sink with
  | nil => exact ⟨sink, rfl⟩
  | cons piece pieces ih =>
    obtain ⟨next, written⟩ := sink.write_of_quiet quiet piece
    have step := sink.refuses_write piece
    rw [written] at step
    rw [writeAll_cons, written]
    exact ih next (step.trans quiet)

end Sink

namespace TraceLog

theorem refuses_put (log : TraceLog) (pieces : List Text) :
    (eitherWay (log.put pieces)).sink.refuses = log.sink.refuses := by
  have written := log.sink.refuses_writeAll pieces
  unfold put
  split
  · split
    · rename_i sink took
      rwa [took] at written
    · rename_i sink refused
      rwa [refused] at written
  · rfl

theorem refuses_enter (log : TraceLog) (operation name : Text) :
    (eitherWay (log.enter operation name)).sink.refuses = log.sink.refuses := by
  have put := log.refuses_put (entryLine log.depth operation name)
  unfold enter
  cases written : log.put (entryLine log.depth operation name) with
  | ok next =>
    rw [written] at put
    exact put
  | error next =>
    rw [written] at put
    exact put

theorem refuses_leave (log : TraceLog) (operation name : Text) (ok : Bool) :
    (eitherWay (log.leave operation name ok)).sink.refuses = log.sink.refuses :=
  refuses_put _ _

theorem put_of_quiet (log : TraceLog) (quiet : log.sink.refuses = false) (pieces : List Text) :
    ∃ next, log.put pieces = .ok next := by
  obtain ⟨sink, written⟩ := log.sink.writeAll_of_quiet quiet pieces
  unfold put
  rw [written]
  split
  · exact ⟨_, rfl⟩
  · exact ⟨_, rfl⟩

theorem enter_of_quiet (log : TraceLog) (quiet : log.sink.refuses = false)
    (operation name : Text) : ∃ next, log.enter operation name = .ok next := by
  obtain ⟨next, written⟩ := log.put_of_quiet quiet (entryLine log.depth operation name)
  unfold enter
  rw [written]
  exact ⟨_, rfl⟩

theorem leave_of_quiet (log : TraceLog) (quiet : log.sink.refuses = false) (operation name : Text)
    (ok : Bool) : ∃ next, log.leave operation name ok = .ok next :=
  put_of_quiet { log with depth := log.depth - 1 } quiet _

end TraceLog

namespace Store

/-- A store is quiet when its log cannot refuse. -/
def Quiet (store : Store) : Prop := store.log.sink.refuses = false

end Store

namespace Run

variable {α : Type} {held : AddressSet} {store after : Store}

theorem logging_apply (action : TraceLog → Except TraceLog TraceLog) (held : AddressSet)
    (store : Store) :
    (logging action held store).2 = { store with log := eitherWay (action store.log) } := by
  unfold logging
  cases action store.log <;> rfl

/-- A traced run over a log that does not refuse returns what the run returns. -/
theorem traced_of_quiet {operation name : Text} {ok : α → Bool} {run : Run α} {result : α}
    {entered : TraceLog} {left : Store} (opened : store.log.enter operation name = .ok entered)
    (ran : run held { store with log := entered } = (.returned result, left))
    (quiet : left.Quiet) :
    ∃ last, left.log.leave operation name (ok result) = .ok last ∧
      traced operation name ok run held store = (.returned result, { left with log := last }) := by
  obtain ⟨last, closed⟩ := left.log.leave_of_quiet quiet operation name (ok result)
  refine ⟨last, closed, ?_⟩
  rw [traced_apply, opened]
  dsimp only
  rw [ran]
  dsimp only
  rw [closed]

end Run

end TwoWayGrammar
