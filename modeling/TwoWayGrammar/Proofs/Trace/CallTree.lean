import TwoWayGrammar.Proofs.Output.Prefix
import TwoWayGrammar.Proofs.Store.Conversion
import TwoWayGrammar.Proofs.Trace.Following

namespace TwoWayGrammar

namespace Call

/-- The exit line of a call, if it has ended. -/
def exitPieces (depth : Nat) (operation : Operation) (name : Text) : Option Bool → List Text
  | some ok => TraceLog.exitLine depth operation.word name ok
  | none => []

mutual

/-- The pieces of a call, as the log sends them to its sink. -/
def pieces (depth : Nat) : Call → List Text
  | call operation name inside ending =>
    TraceLog.entryLine depth operation.word name ++
      (piecesAll (depth + 1) inside ++ exitPieces depth operation name ending)

/-- Calls on one level follow each other. -/
def piecesAll (depth : Nat) : List Call → List Text
  | [] => []
  | first :: others => pieces depth first ++ piecesAll depth others

end

theorem piecesAll_append (depth : Nat) (first second : List Call) :
    piecesAll depth (first ++ second) = piecesAll depth first ++ piecesAll depth second := by
  induction first with
  | nil => rfl
  | cons call calls ih => simp [piecesAll, ih]

theorem flatten_indentation (depth : Nat) :
    (TraceLog.indentation depth).flatten = List.replicate (2 * depth) ' ' := by
  induction depth with
  | zero => rfl
  | succ depth ih =>
    rw [TraceLog.indentation, List.replicate_succ, List.flatten_cons, ← TraceLog.indentation, ih]
    rfl

theorem untilNul_word (operation : Operation) : Text.untilNul operation.word = operation.word := by
  cases operation <;> rfl

theorem flatten_entryLine (depth : Nat) (operation : Operation) (name : Text) :
    (TraceLog.entryLine depth operation.word name).flatten =
      line depth (operation.word ++ ' ' :: name) := by
  simp [TraceLog.entryLine, line, flatten_indentation, untilNul_word]

theorem flatten_exitLine (depth : Nat) (operation : Operation) (name : Text) (ok : Bool) :
    (TraceLog.exitLine depth operation.word name ok).flatten =
      line depth (operation.word ++ ' ' :: name ++ ": ".toList ++ verdict ok) := by
  cases ok <;> simp [TraceLog.exitLine, line, flatten_indentation, untilNul_word, verdict]

mutual

/-- The pieces of a call make up its text. -/
theorem flatten_pieces (depth : Nat) : (call : Call) → (pieces depth call).flatten = text depth call
  | call operation name inside ending => by
    have within := flatten_piecesAll (depth + 1) inside
    rw [pieces, List.flatten_append, List.flatten_append, flatten_entryLine, within,
      ← List.append_assoc]
    cases ending with
    | none => rw [text]; rfl
    | some ok => rw [text, exitPieces, flatten_exitLine]

theorem flatten_piecesAll (depth : Nat) :
    (calls : List Call) → (piecesAll depth calls).flatten = texts depth calls
  | [] => rfl
  | first :: others => by
    rw [piecesAll, texts, List.flatten_append, flatten_pieces depth first,
      flatten_piecesAll depth others]

end

end Call

namespace TraceLog

/-- What an enabled log sends to its sink, and a muted one drops. -/
def sent (enabled : Bool) (pieces : List Text) : List Text := if enabled then pieces else []

theorem sent_nil (enabled : Bool) : sent enabled [] = [] := by
  cases enabled <;> rfl

theorem sent_append (enabled : Bool) (first second : List Text) :
    sent enabled (first ++ second) = sent enabled first ++ sent enabled second := by
  cases enabled <;> rfl

variable {log : TraceLog} {sink : Sink} {pieces : List Text}

theorem put_of_taken (taken : log.sink.writeAll (sent log.enabled pieces) = .ok sink) :
    log.put pieces = .ok { log with sink } := by
  obtain ⟨old, depth, enabled⟩ := log
  cases enabled with
  | false =>
    obtain rfl := Except.ok.inj taken
    rfl
  | true =>
    simp only [sent, if_true] at taken
    simp [put, taken]

theorem put_of_refused (refused : log.sink.writeAll (sent log.enabled pieces) = .error sink) :
    log.put pieces = .error { log with sink } := by
  obtain ⟨old, depth, enabled⟩ := log
  cases enabled with
  | false => simp [sent] at refused
  | true =>
    simp only [sent, if_true] at refused
    simp [put, refused]

/-- Only an enabled log can be refused. -/
theorem enabled_of_refused {enabled : Bool} {next : Sink}
    (refused : sink.writeAll (sent enabled pieces) = .error next) : enabled = true := by
  cases enabled with
  | false => simp [sent] at refused
  | true => rfl

variable {operation name : Text} {ok : Bool}

theorem enter_of_taken
    (taken : log.sink.writeAll (sent log.enabled (entryLine log.depth operation name)) = .ok sink) :
    log.enter operation name = .ok ⟨sink, log.depth + 1, log.enabled⟩ := by
  rw [enter, put_of_taken taken]
  rfl

theorem enter_of_refused
    (refused : log.sink.writeAll (sent log.enabled (entryLine log.depth operation name)) =
      .error sink) : log.enter operation name = .error { log with sink } := by
  rw [enter, put_of_refused refused]
  rfl

theorem leave_of_taken
    (taken : log.sink.writeAll (sent log.enabled (exitLine (log.depth - 1) operation name ok)) =
      .ok sink) : log.leave operation name ok = .ok ⟨sink, log.depth - 1, log.enabled⟩ :=
  @put_of_taken { log with depth := log.depth - 1 } _ _ taken

theorem leave_of_refused
    (refused : log.sink.writeAll (sent log.enabled (exitLine (log.depth - 1) operation name ok)) =
      .error sink) : log.leave operation name ok = .error ⟨sink, log.depth - 1, log.enabled⟩ :=
  @put_of_refused { log with depth := log.depth - 1 } _ _ refused

/-- A jammed sink refuses every exit line. -/
theorem leave_of_jammed (enabled : log.enabled = true) (jammed : log.sink.Jammed) :
    log.leave operation name ok = .error { log with depth := log.depth - 1 } := by
  refine leave_of_refused (Sink.writeAll_of_jammed jammed ?_)
  simp [sent, enabled, exitLine]

/-- The pieces of the calls go to the sink, if the log is enabled. -/
def sentFor (log : TraceLog) (calls : List Call) : List Text :=
  sent log.enabled (Call.piecesAll log.depth calls)

theorem sentFor_append (log : TraceLog) (first second : List Call) :
    log.sentFor (first ++ second) = log.sentFor first ++ log.sentFor second := by
  rw [sentFor, Call.piecesAll_append, sent_append]
  rfl

theorem sentFor_call (log : TraceLog) (operation : Operation) (name : Text) (inside : List Call)
    (ending : Option Bool) :
    log.sentFor [.call operation name inside ending] =
      sent log.enabled (entryLine log.depth operation.word name) ++
        (sent log.enabled (Call.piecesAll (log.depth + 1) inside) ++
          sent log.enabled (Call.exitPieces log.depth operation name ending)) := by
  rw [sentFor, Call.piecesAll, Call.piecesAll, List.append_nil, Call.pieces, sent_append, sent_append]

end TraceLog

/-- What comes of a run that sends the calls of a recording to the sink of its log. It ends as recorded
and at the same depth, or with the fault of the sink. -/
def Recorded.Sends {α : Type} (recorded : Recorded α) (log : TraceLog) (written : Except Sink Sink)
    (ran : Outcome α × Store) : Prop :=
  match written with
  | .ok sink => ∃ depth, (recorded.outcome ≠ .diverged → depth = log.depth) ∧
      ran = (recorded.outcome, { recorded.after with log := ⟨sink, depth, log.enabled⟩ })
  | .error sink => ∃ after : Store, after.log.sink = sink ∧ after.log.enabled = log.enabled ∧
      ran = (.stopped .sink, after)

/-- A run logs a recording when it sends the pieces of the calls to its sink, whatever log it has. -/
structure Recording.Logs {α : Type} (recording : Recording α) (run : Run α) : Prop where
  ended : ∀ held store, (recording held store).outcome ≠ .diverged →
    Call.AllEnded (recording held store).calls
  sends : ∀ held store (log : TraceLog), (recording held store).Sends log
    (log.sink.writeAll (log.sentFor (recording held store).calls)) (run held { store with log })

namespace Recording

open Run

variable {α β : Type}

/-- A run whose end does not depend on the log, and which does not change it, makes no calls. -/
theorem logs_silent {run : Run α}
    (same : ∀ held store log, run held { store with log } =
      ((run held store).1, { (run held store).2 with log })) : Logs (silent run) run where
  ended _ _ _ := trivial
  sends held store log := by
    have nothing : log.sentFor [] = [] := TraceLog.sent_nil log.enabled
    rw [silent, nothing]
    exact ⟨log.depth, fun _ => rfl, same held store log⟩

theorem logs_pure (result : α) : Logs (pure result) (pure result) :=
  show Logs (silent (pure result)) (pure result) from logs_silent fun _ _ _ => rfl

theorem bind_apply (first : Recording α) (next : α → Recording β) (held : AddressSet)
    (store : Store) :
    (first >>= next) held store =
      match first held store with
      | ⟨.returned result, after, calls⟩ =>
        ⟨(next result held after).outcome, (next result held after).after,
          calls ++ (next result held after).calls⟩
      | ⟨.stopped fault, after, calls⟩ => ⟨.stopped fault, after, calls⟩
      | ⟨.diverged, after, calls⟩ => ⟨.diverged, after, calls⟩ := rfl

/-- Once the sink has refused, nothing follows. -/
theorem sends_bind_of_refused {recorded : Recorded α} {other : Recorded β} {log : TraceLog}
    {sink : Sink} {run : Run α} {following : α → Run β} {held : AddressSet} {store : Store}
    (refused : recorded.Sends log (.error sink) (run held store)) :
    other.Sends log (.error sink) ((run >>= following) held store) := by
  obtain ⟨last, same, enabled, ran⟩ := refused
  exact ⟨last, same, enabled, bind_of_stopped ran⟩

/-- Nothing follows a run that did not return. What it has sent is all that is sent. -/
theorem sends_bind_of_ended {outcome : Outcome α} {ending : Outcome β} {after : Store}
    {calls : List Call} {log : TraceLog} {written : Except Sink Sink} {run : Run α}
    {following : α → Run β} {held : AddressSet} {store : Store}
    (ends : ending ≠ .diverged → outcome ≠ .diverged)
    (passes : ∀ last, run held store = (outcome, last) → (run >>= following) held store = (ending, last))
    (start : (⟨outcome, after, calls⟩ : Recorded α).Sends log written (run held store)) :
    (⟨ending, after, calls⟩ : Recorded β).Sends log written ((run >>= following) held store) := by
  cases written with
  | ok sink =>
    obtain ⟨depth, level, ran⟩ := start
    exact ⟨depth, fun ended => level (ends ended), passes _ ran⟩
  | error sink => exact sends_bind_of_refused start

/-- The pieces of the second recording follow those of the first, and they are sent only if the sink
took all of the first ones. -/
theorem Logs.bind {first : Recording α} {run : Run α} {next : α → Recording β}
    {following : α → Run β} (before : Logs first run)
    (later : ∀ result, Logs (next result) (following result)) :
    Logs (first >>= next) (run >>= following) where
  ended held store ends := by
    have whole := before.ended held store
    rw [bind_apply] at ends ⊢
    rcases found : first held store with ⟨outcome, after, calls⟩
    rw [found] at whole ends
    cases outcome with
    | returned result =>
      exact Call.allEnded_append.mpr ⟨whole (by simp), (later result).ended held after ends⟩
    | stopped fault => exact whole (by simp)
    | diverged => exact absurd rfl ends
  sends held store log := by
    have start := before.sends held store log
    rw [bind_apply]
    rcases found : first held store with ⟨outcome, after, calls⟩
    rw [found] at start
    dsimp only at start
    cases outcome with
    | returned result =>
      dsimp only
      rw [TraceLog.sentFor_append]
      cases middle : log.sink.writeAll (log.sentFor calls) with
      | ok sink =>
        rw [middle] at start
        obtain ⟨depth, level, ran⟩ := start
        obtain rfl := level (by simp)
        rw [Sink.writeAll_append_of_ok middle, bind_of_returned ran]
        exact (later result).sends held after ⟨sink, log.depth, log.enabled⟩
      | error sink =>
        rw [middle] at start
        rw [Sink.writeAll_append_of_error middle]
        exact sends_bind_of_refused start
    | stopped fault =>
      exact sends_bind_of_ended (fun _ => by simp) (fun _ => bind_of_stopped) start
    | diverged =>
      exact sends_bind_of_ended (absurd rfl) (fun _ => bind_of_diverged) start

/-- The exit line of a run that has ended is the last that it sends. -/
theorem sends_exit (log : TraceLog) (sink : Sink) (after : Store) (calls : List Call)
    (operation : Operation) (name : Text) (flag : Bool) (outcome : Outcome α) :
    (⟨outcome, after, calls⟩ : Recorded α).Sends log
      (sink.writeAll (TraceLog.sent log.enabled
        (TraceLog.exitLine log.depth operation.word name flag)))
      (match (⟨sink, log.depth + 1, log.enabled⟩ : TraceLog).leave operation.word name flag with
        | .error log => (.stopped .sink, { after with log })
        | .ok log => (outcome, { after with log })) := by
  cases closing : sink.writeAll (TraceLog.sent log.enabled
    (TraceLog.exitLine log.depth operation.word name flag)) with
  | error last =>
    have closed : (⟨sink, log.depth + 1, log.enabled⟩ : TraceLog).leave operation.word name flag =
      .error ⟨last, log.depth, log.enabled⟩ := TraceLog.leave_of_refused closing
    rw [closed]
    exact ⟨_, rfl, rfl, rfl⟩
  | ok last =>
    have closed : (⟨sink, log.depth + 1, log.enabled⟩ : TraceLog).leave operation.word name flag =
      .ok ⟨last, log.depth, log.enabled⟩ := TraceLog.leave_of_taken closing
    rw [closed]
    exact ⟨log.depth, fun _ => rfl, rfl⟩

/-- Behind a piece that the sink refused, it refuses the exit line as well. -/
theorem traced_of_jammed {operation name : Text} (ok : α → Bool) {run : Run α} {held : AddressSet}
    {store after : Store} {entered : TraceLog} {fault : Fault}
    (opened : store.log.enter operation name = .ok entered)
    (ran : run held { store with log := entered } = (.stopped fault, after))
    (enabled : after.log.enabled = true) (jammed : after.log.sink.Jammed) :
    Run.traced operation name ok run held store =
      (.stopped .sink, { after with log := { after.log with depth := after.log.depth - 1 } }) := by
  rw [Run.traced_apply, opened]
  dsimp only
  rw [ran]
  dsimp only
  rw [TraceLog.leave_of_jammed enabled jammed]

/-- A traced run sends its entry line, then what is sent inside, and then its exit line if the run
inside has ended. -/
theorem Logs.calling (operation : Operation) (name : Text) (ok : α → Bool) {inside : Recording α}
    {run : Run α} (logs : Logs inside run) :
    Logs (inside.calling operation name ok) (Run.traced operation.word name ok run) where
  ended held store ends := by
    have whole := logs.ended held store ends
    refine ⟨⟨?_, whole⟩, trivial⟩
    change (inside held store).outcome ≠ .diverged at ends
    cases outcome : (inside held store).outcome with
    | returned result => rfl
    | stopped fault => rfl
    | diverged => exact absurd outcome ends
  sends held store log := by
    have within := logs.sends held store
    unfold Recording.calling
    rcases found : inside held store with ⟨outcome, after, calls⟩
    rw [found] at within
    dsimp only at within ⊢
    rw [TraceLog.sentFor_call]
    cases opening : log.sink.writeAll (TraceLog.sent log.enabled
      (TraceLog.entryLine log.depth operation.word name)) with
    | error sink =>
      rw [Sink.writeAll_append_of_error opening, Run.traced_apply, TraceLog.enter_of_refused opening]
      exact ⟨_, rfl, rfl, rfl⟩
    | ok entered =>
      rw [Sink.writeAll_append_of_ok opening]
      have opened : log.enter operation.word name = .ok ⟨entered, log.depth + 1, log.enabled⟩ :=
        TraceLog.enter_of_taken opening
      have ran := within ⟨entered, log.depth + 1, log.enabled⟩
      change Recorded.Sends _ _ (entered.writeAll (TraceLog.sent log.enabled
        (Call.piecesAll (log.depth + 1) calls))) _ at ran
      cases middle : entered.writeAll (TraceLog.sent log.enabled
        (Call.piecesAll (log.depth + 1) calls)) with
      | error sink =>
        rw [middle] at ran
        obtain ⟨last, same, enabled, ran⟩ := ran
        rw [Sink.writeAll_append_of_error middle]
        have jammed : last.log.sink.Jammed := same ▸ Sink.jammed_of_writeAll middle
        have enables := enabled.trans (TraceLog.enabled_of_refused middle)
        exact ⟨{ last with log := { last.log with depth := last.log.depth - 1 } }, same, enabled,
          traced_of_jammed ok opened ran enables jammed⟩
      | ok sink =>
        rw [middle] at ran
        obtain ⟨depth, level, ran⟩ := ran
        rw [Sink.writeAll_append_of_ok middle, Run.traced_apply, opened]
        dsimp only
        rw [ran]
        cases outcome with
        | returned result =>
          obtain rfl := level (by simp)
          exact sends_exit log sink after _ operation name (ok result) (.returned result)
        | stopped fault =>
          obtain rfl := level (by simp)
          exact sends_exit log sink after _ operation name false (.stopped fault)
        | diverged =>
          change Recorded.Sends _ _ (sink.writeAll (TraceLog.sent log.enabled [])) _
          rw [TraceLog.sent_nil]
          exact ⟨depth, fun ends => absurd rfl ends, rfl⟩

/-- The collection after a run that held cells makes no calls and does not depend on the log. -/
theorem Logs.holding (cells : AddressSet) {recording : Recording α} {run : Run α}
    (logs : Logs recording run) : Logs (recording.holding cells) (Run.holding cells run) where
  ended held store ends := by
    have whole := logs.ended (held ∪ cells) store
    unfold Recording.holding at ends ⊢
    rcases found : recording (held ∪ cells) store with ⟨_ | _ | _, after, calls⟩ <;>
      rw [found] at whole ends <;> exact whole ends
  sends held store log := by
    have within := logs.sends (held ∪ cells) store log
    unfold Recording.holding Run.holding
    rcases found : recording (held ∪ cells) store with ⟨outcome, after, calls⟩
    rw [found] at within
    cases written : log.sink.writeAll (log.sentFor calls) with
    | error sink =>
      rw [written] at within
      obtain ⟨last, same, enabled, ran⟩ := within
      rw [ran]
      cases outcome <;> dsimp only <;> rw [written] <;> exact ⟨last, same, enabled, rfl⟩
    | ok sink =>
      rw [written] at within
      obtain ⟨depth, level, ran⟩ := within
      rw [ran]
      cases outcome with
      | returned result =>
        dsimp only
        rw [written]
        refine ⟨depth, fun _ => level (by simp), ?_⟩
        split
        · rfl
        · rw [Store.collect_log]
      | stopped fault =>
        dsimp only
        rw [written]
        exact ⟨depth, level, rfl⟩
      | diverged =>
        dsimp only
        rw [written]
        exact ⟨depth, level, rfl⟩

theorem logs_resolve (cell : Address) : Logs (silent (Run.resolve cell)) (Run.resolve cell) :=
  logs_silent (Run.resolve_log cell)

/-- Logging passes from the parts of a recording to what is built from them. -/
theorem logs_followed : Followed id (Run.interpretation 0 fun _ => .bottom).traced fun _ => Logs where
  pure := logs_pure
  stop _ := logs_silent fun _ _ _ => rfl
  diverge := logs_silent fun _ _ _ => rfl
  bind first later := first.bind later
  holding cell _ _ logs := logs.holding {cell}
  resolve cell _ _ later := (logs_resolve cell).bind later
  traced name _ _ logs :=
    ⟨fun input => (logs.read input).calling .reading name Match.accepted,
      fun value rest => (logs.write value rest).calling .writing name fun _ => true⟩

end Recording

namespace Grammar

/-- Reading sends the calls of its recording. -/
theorem read_logs (fuel : Nat) (grammar : Grammar) (input : Input) :
    ((grammar.recording fuel).read input).Logs (grammar.read fuel input) :=
  (recording_followed Recording.logs_followed (fun _ _ _ => rfl) fuel grammar).read input

/-- Writing sends the calls of its recording. -/
theorem write_logs (fuel : Nat) (grammar : Grammar) (value : Value) (rest : Input) :
    ((grammar.recording fuel).write value rest).Logs (grammar.write fuel value rest) :=
  (recording_followed Recording.logs_followed (fun _ _ _ => rfl) fuel grammar).write value rest

/-- A call of a traced grammar ends as the run inside it does. -/
theorem ending_eq_some_true {α : Type} {ok : α → Bool} {outcome : Outcome α} :
    outcome.ending ok = some true ↔ ∃ result, outcome = .returned result ∧ ok result = true := by
  cases outcome <;> simp [Outcome.ending]

theorem ending_eq_none {α : Type} {ok : α → Bool} {outcome : Outcome α} :
    outcome.ending ok = none ↔ outcome = .diverged := by
  cases outcome <;> simp [Outcome.ending]

/-- An enabled log with an endless sink takes the text of all calls. -/
theorem written_of_logs {α : Type} {recording : Recording α} {run : Run α}
    (logs : recording.Logs run) {store : Store} (enabled : store.log.enabled = true)
    (endless : store.log.sink.room = none) (whole : store.log.sink.broken = false)
    (held : AddressSet) :
    (run held store).1 = (recording held store).outcome ∧
      (run held store).2.log.sink.written = store.log.sink.written ++
        Call.texts store.log.depth (recording held store).calls ∧
      ((run held store).1 ≠ .diverged → Call.AllEnded (recording held store).calls) := by
  have sends := logs.sends held store store.log
  rw [Sink.writeAll_unlimited _ _ whole endless, TraceLog.sentFor, enabled] at sends
  obtain ⟨depth, _, ran⟩ := sends
  change run held store = _ at ran
  rw [ran]
  refine ⟨rfl, ?_, logs.ended held store⟩
  dsimp only
  rw [Sink.written_foldl_take, TraceLog.sent, if_pos rfl, Call.flatten_piecesAll]

/-- Over an enabled log whose sink takes everything, reading and writing write the text of their call
trees, from the depth of the log on. Once the run has ended, every entry in it has its exit. The exit
of a traced grammar says that it went well exactly when the run inside returned a success, or when it
returned at all in writing. -/
theorem callTree_written (store : Store) (enabled : store.log.enabled = true)
    (endless : store.log.sink.room = none) (whole : store.log.sink.broken = false)
    (fuel : Nat) (held : AddressSet) :
    (∀ (grammar : Grammar) input,
      let recorded := (grammar.recording fuel).read input held store
      let ran := grammar.read fuel input held store
      ran.1 = recorded.outcome ∧
        ran.2.log.sink.written =
          store.log.sink.written ++ Call.texts store.log.depth recorded.calls ∧
        (ran.1 ≠ .diverged → Call.AllEnded recorded.calls)) ∧
    (∀ (grammar : Grammar) value rest,
      let recorded := (grammar.recording fuel).write value rest held store
      let ran := grammar.write fuel value rest held store
      ran.1 = recorded.outcome ∧
        ran.2.log.sink.written =
          store.log.sink.written ++ Call.texts store.log.depth recorded.calls ∧
        (ran.1 ≠ .diverged → Call.AllEnded recorded.calls)) ∧
    (∀ name (body : Grammar) input, ∃ ending,
      (((traced name body).recording fuel).read input held store).calls =
          [.call .reading name ((body.recording fuel).read input held store).calls ending] ∧
        (ending = some true ↔
          ∃ value rest, (body.read fuel input held store).1 = .returned (.success value rest)) ∧
        (ending = none ↔ (body.read fuel input held store).1 = .diverged)) ∧
    ∀ name (body : Grammar) value rest, ∃ ending,
      (((traced name body).recording fuel).write value rest held store).calls =
          [.call .writing name ((body.recording fuel).write value rest held store).calls ending] ∧
        (ending = some true ↔
          ∃ written, (body.write fuel value rest held store).1 = .returned written) ∧
        (ending = none ↔ (body.write fuel value rest held store).1 = .diverged) := by
  have reads (grammar : Grammar) (input : Input) :=
    written_of_logs (grammar.read_logs fuel input) enabled endless whole held
  have writes (grammar : Grammar) (value : Value) (rest : Input) :=
    written_of_logs (grammar.write_logs fuel value rest) enabled endless whole held
  refine ⟨reads, writes, ?_, ?_⟩
  · intro name body input
    refine ⟨_, by rw [recording_traced]; rfl, ?_, ?_⟩
    · rw [ending_eq_some_true, (reads body input).1]
      constructor
      · rintro ⟨found, returned, accepted⟩
        cases found with
        | success value rest => exact ⟨value, rest, returned⟩
        | failure rest => simp [Match.accepted] at accepted
      · rintro ⟨value, rest, returned⟩
        exact ⟨_, returned, rfl⟩
    · rw [ending_eq_none, (reads body input).1]
  · intro name body value rest
    refine ⟨_, by rw [recording_traced]; rfl, ?_, ?_⟩
    · rw [ending_eq_some_true, (writes body value rest).1]
      simp
    · rw [ending_eq_none, (writes body value rest).1]

/-- Digits are traced one by one, and so is the number that they make up. -/
def tracedNumber : Grammar :=
  .traced "number".toList (.many (.traced "digit".toList (.satisfy (Test.inClass .digit))))

/-- The last attempt of the loop fails inside a number that goes well. -/
theorem callTree_tracedNumber :
    ((tracedNumber.read 0 [.char '1', .char 'x']) ∅ (Store.new .unlimited)).2.log.sink.written =
      ("match number\n" ++ "  match digit\n" ++ "  match digit: ok\n" ++ "  match digit\n" ++
        "  match digit: fail\n" ++ "match number: ok\n").toList := by
  have written := ((callTree_written (Store.new .unlimited) rfl rfl rfl 0 ∅).1 tracedNumber
    [.char '1', .char 'x']).2.1
  rw [written]
  decide

end Grammar

end TwoWayGrammar
