import TwoWayGrammar.Proofs.Trace.CallTree
import TwoWayGrammar.Proofs.Trace.Untraced

namespace TwoWayGrammar

/-- A store is uniform when all definitions that are still to be built are. -/
abbrev Store.Uniform (store : Store) : Prop := Conversion.untraced.Allows store

/-- The store without traced parts, with another log. -/
abbrev Store.untraced (store : Store) (log : TraceLog) : Store := Conversion.untraced.store log store

/-- A run repeats a recording when it ends as recorded in the store without traced parts, whatever log
it has, and leaves what is recorded, without traced parts. -/
def Recording.Repeats {α : Type} (recording : Recording α) (run : Run α) : Prop :=
  ∀ held store log, store.Uniform → (recording held store).after.Uniform ∧
    run held (store.untraced log) =
      ((recording held store).outcome, (recording held store).after.untraced log)

namespace Recording

open Run

variable {α β : Type}

theorem repeats_pure (result : α) : Repeats (pure result) (pure result) :=
  fun _ _ _ uniform => ⟨uniform, rfl⟩

theorem Repeats.bind {first : Recording α} {run : Run α} {next : α → Recording β}
    {following : α → Run β} (before : Repeats first run)
    (later : ∀ result, Repeats (next result) (following result)) :
    Repeats (first >>= next) (run >>= following) := by
  intro held store log uniform
  obtain ⟨kept, ran⟩ := before held store log uniform
  rw [bind_apply]
  rcases found : first held store with ⟨outcome, after, calls⟩
  rw [found] at kept ran
  cases outcome with
  | returned result =>
    rw [bind_of_returned ran]
    exact later result held after log kept
  | stopped fault => exact ⟨kept, bind_of_stopped ran⟩
  | diverged => exact ⟨kept, bind_of_diverged ran⟩

theorem Repeats.holding (cells : AddressSet) {recording : Recording α} {run : Run α}
    (repeats : Repeats recording run) : Repeats (recording.holding cells) (Run.holding cells run) := by
  intro held store log uniform
  obtain ⟨kept, ran⟩ := repeats (held ∪ cells) store log uniform
  unfold Recording.holding Run.holding
  rw [ran]
  rcases found : recording (held ∪ cells) store with ⟨outcome, after, calls⟩
  rw [found] at kept
  cases outcome with
  | returned result =>
    dsimp only
    change _ ∧ (_, if after.builds = store.builds then _ else _) = _
    split
    · exact ⟨kept, rfl⟩
    · exact ⟨Conversion.allows_collect held kept, by rw [← Conversion.store_collect]⟩
  | stopped fault => exact ⟨kept, rfl⟩
  | diverged => exact ⟨kept, rfl⟩

/-- A cell of the store without traced parts gives a grammar without them. -/
theorem Repeats.resolve (cell : Address) {next : Grammar → Recording α}
    {following : Grammar → Run α} (later : ∀ body, Repeats (next body) (following body.untraced)) :
    Repeats (silent (Run.resolve cell) >>= next) (Run.resolve cell >>= following) := by
  intro held store log uniform
  obtain ⟨kept, same⟩ := resolve_echoes (Definition.builds_untraced log) cell held store uniform
  rw [bind_apply, silent]
  rcases found : Run.resolve cell held store with ⟨outcome, after⟩
  rw [found] at kept same
  cases outcome with
  | returned body =>
    rw [bind_of_returned same]
    exact later body held after log kept
  | stopped fault => exact ⟨kept, bind_of_stopped same⟩
  | diverged => exact ⟨kept, bind_of_diverged same⟩

/-- Repeating passes from the parts of a recording to what is built from them. What is recorded of a
traced grammar is repeated by its body. -/
theorem repeats_followed : Followed Grammar.untraced (fun _ body => body) fun _ => Repeats where
  pure := repeats_pure
  stop _ := fun _ _ _ uniform => ⟨uniform, rfl⟩
  diverge := fun _ _ _ uniform => ⟨uniform, rfl⟩
  bind first later := first.bind later
  holding cell _ _ repeats := repeats.holding {cell}
  resolve cell _ _ later := Repeats.resolve cell later
  traced _ _ _ repeats :=
    ⟨fun input => repeats.read input, fun value rest => repeats.write value rest⟩

end Recording

namespace Call

/-- Every call has a line at least. -/
theorem eq_nil_of_texts {depth : Nat} {calls : List Call} (nothing : texts depth calls = []) :
    calls = [] := by
  cases calls with
  | nil => rfl
  | cons first others =>
    obtain ⟨operation, name, inside, ending⟩ := first
    cases ending <;> simp [texts, text, line] at nothing

/-- Where the log sends no text, it sends no piece. -/
theorem sentFor_eq_nil {log : TraceLog} {calls : List Call}
    (nothing : (log.sentFor calls).flatten = []) : log.sentFor calls = [] := by
  unfold TraceLog.sentFor at nothing ⊢
  cases enabled : log.enabled with
  | false => rfl
  | true =>
    rw [TraceLog.sent, enabled, if_pos rfl, flatten_piecesAll] at nothing
    rw [eq_nil_of_texts nothing]
    rfl

end Call

namespace Run

variable {α : Type}

/-- The text that a run writes to an unlimited sink. -/
def unlimitedText (run : Run α) (held : AddressSet) (store : Store) (depth : Nat) (enabled : Bool) :
    Text :=
  (run held { store with log := ⟨.unlimited, depth, enabled⟩ }).2.log.sink.written

/-- Over a sink with the given room left, a run that would have the outcome does the following. If the
sink drops what does not fit, or everything fits, the run has the outcome. If the sink refuses what
does not fit, the run stops there with the fault of the sink. In each case the sink takes as much of
the front of the unlimited text as it has room for. -/
structure Transparent (run : Run α) (held : AddressSet) (store : Store) (depth : Nat)
    (enabled : Bool) (outcome : Outcome α) : Prop where
  unlimited : (run held { store with log := ⟨.unlimited, depth, enabled⟩ }).1 = outcome
  silent : ∀ (sink : Sink) room, sink.refuses = false → sink.HasRoom room →
    let ran := run held { store with log := ⟨sink, depth, enabled⟩ }
    ran.1 = outcome ∧ ran.2.log.sink.written =
      sink.written ++ (run.unlimitedText held store depth enabled).take room
  fitting : ∀ (sink : Sink) room, sink.refuses = true → sink.HasRoom room →
    (run.unlimitedText held store depth enabled).length ≤ room →
    let ran := run held { store with log := ⟨sink, depth, enabled⟩ }
    ran.1 = outcome ∧ ran.2.log.sink.written =
      sink.written ++ run.unlimitedText held store depth enabled
  refused : ∀ (sink : Sink) room, sink.refuses = true → sink.HasRoom room →
    room < (run.unlimitedText held store depth enabled).length →
    let ran := run held { store with log := ⟨sink, depth, enabled⟩ }
    ran.1 = .stopped .sink ∧ ran.2.log.sink.written =
      sink.written ++ (run.unlimitedText held store depth enabled).take room

section Sending

variable {recording : Recording α} {run : Run α} {held : AddressSet} {store : Store} {depth : Nat}
  {enabled : Bool} {sink next : Sink}

/-- The pieces that the recorded calls send do not depend on the sink. -/
abbrev sentBy (recording : Recording α) (held : AddressSet) (store : Store) (depth : Nat)
    (enabled : Bool) : List Text :=
  TraceLog.sentFor ⟨.unlimited, depth, enabled⟩ (recording held store).calls

theorem ends_of_taken (logs : recording.Logs run)
    (taken : sink.writeAll (sentBy recording held store depth enabled) = .ok next) :
    (run held { store with log := ⟨sink, depth, enabled⟩ }).1 = (recording held store).outcome ∧
      (run held { store with log := ⟨sink, depth, enabled⟩ }).2.log.sink = next := by
  have sends := logs.sends held store ⟨sink, depth, enabled⟩
  change Recorded.Sends _ _ (sink.writeAll (sentBy recording held store depth enabled)) _ at sends
  rw [taken] at sends
  obtain ⟨last, _, ran⟩ := sends
  rw [ran]
  exact ⟨rfl, rfl⟩

theorem stops_of_refused (logs : recording.Logs run)
    (refused : sink.writeAll (sentBy recording held store depth enabled) = .error next) :
    (run held { store with log := ⟨sink, depth, enabled⟩ }).1 = .stopped .sink ∧
      (run held { store with log := ⟨sink, depth, enabled⟩ }).2.log.sink = next := by
  have sends := logs.sends held store ⟨sink, depth, enabled⟩
  change Recorded.Sends _ _ (sink.writeAll (sentBy recording held store depth enabled)) _ at sends
  rw [refused] at sends
  obtain ⟨after, same, _, ran⟩ := sends
  rw [ran]
  exact ⟨rfl, same⟩

/-- The unlimited text is made up of the pieces that the recorded calls send. -/
theorem unlimitedText_of_logs (logs : recording.Logs run) :
    run.unlimitedText held store depth enabled =
      (sentBy recording held store depth enabled).flatten := by
  have ran := (ends_of_taken logs (Sink.writeAll_unlimited .unlimited
    (sentBy recording held store depth enabled) rfl rfl)).2
  rw [unlimitedText, ran, Sink.written_foldl_take]
  rfl

theorem transparent_of_logs (logs : recording.Logs run) (held : AddressSet) (store : Store)
    (depth : Nat) (enabled : Bool) :
    run.Transparent held store depth enabled (recording held store).outcome where
  unlimited := (ends_of_taken logs (Sink.writeAll_unlimited .unlimited _ rfl rfl)).1
  silent sink room quiet has := by
    obtain ⟨next, taken, written⟩ :=
      Sink.writeAll_of_silent quiet has (sentBy recording held store depth enabled)
    obtain ⟨ended, same⟩ := ends_of_taken logs taken
    exact ⟨ended, by rw [same, written, unlimitedText_of_logs logs]⟩
  fitting sink room _ has short := by
    rw [unlimitedText_of_logs logs] at short
    obtain ⟨next, taken, written⟩ : ∃ next,
        sink.writeAll (sentBy recording held store depth enabled) = .ok next ∧
          next.written = sink.written ++ (sentBy recording held store depth enabled).flatten := by
      cases broken : sink.broken with
      | false => exact Sink.writeAll_of_le broken has.limited short
      | true =>
        -- A broken sink has no room left, so there was nothing to send.
        rw [has.broken broken, Nat.le_zero, List.length_eq_zero_iff] at short
        refine ⟨sink, ?_, by rw [short, List.append_nil]⟩
        rw [show sentBy recording held store depth enabled = [] from Call.sentFor_eq_nil short]
        rfl
    obtain ⟨ended, same⟩ := ends_of_taken logs taken
    exact ⟨ended, by rw [same, written, unlimitedText_of_logs logs]⟩
  refused sink room refuses has long := by
    rw [unlimitedText_of_logs logs] at long
    obtain ⟨next, stopped, written⟩ := Sink.writeAll_of_gt refuses has long
    obtain ⟨ended, same⟩ := stops_of_refused logs stopped
    exact ⟨ended, by rw [same, written, unlimitedText_of_logs logs]⟩

end Sending

end Run

namespace Grammar

/-- Without its traced parts a grammar behaves as it does where tracing adds nothing. -/
theorem behaviour_untraced {m : Type → Type} [Monad m] [Faulting m]
    (interpretation : Interpretation m) (grammar : Grammar) :
    grammar.untraced.behaviour interpretation =
      grammar.behaviour (interpretation.marking fun _ body => body) := by
  induction grammar with
  | primitive base => rfl
  | adapt prism body ih => rw [untraced, behaviour, ih]; rfl
  | sequence first second firstIh secondIh => rw [untraced, behaviour, firstIh, secondIh]; rfl
  | thenDiscard body mark bodyIh markIh => rw [untraced, behaviour, bodyIh, markIh]; rfl
  | discardThen mark body markIh bodyIh => rw [untraced, behaviour, markIh, bodyIh]; rfl
  | choice first second firstIh secondIh => rw [untraced, behaviour, firstIh, secondIh]; rfl
  | many body ih => rw [untraced, behaviour, ih]; rfl
  | replicate capacity count body ih => rw [untraced, behaviour, ih]; rfl
  | dependent determinant next extract captured determinantIh nextIh =>
    rw [untraced, behaviour, determinantIh, funext nextIh]
    rfl
  | withDefault default body ih => rw [untraced, behaviour, ih]; rfl
  | opt body ih => rw [untraced, behaviour, ih]; rfl
  | traced name body ih => exact ih
  | shared cell => rfl
  | handle cell => rfl

/-- What is recorded of reading is what reading without traced parts does. -/
theorem read_repeats (fuel : Nat) (grammar : Grammar) (input : Input) :
    ((grammar.recording fuel).read input).Repeats (grammar.untraced.read fuel input) :=
  (recording_followed Recording.repeats_followed (fun _ _ => behaviour_untraced _) fuel grammar).read
    input

theorem write_repeats (fuel : Nat) (grammar : Grammar) (value : Value) (rest : Input) :
    ((grammar.recording fuel).write value rest).Repeats (grammar.untraced.write fuel value rest) :=
  (recording_followed Recording.repeats_followed (fun _ _ => behaviour_untraced _) fuel grammar).write
    value rest

/-- Tracing is transparent. Whatever the depth of the log and whether it is enabled or not, reading and
writing end as they do with every traced part left out, up to the fault of a sink that refuses. -/
theorem transparent_of_uniform (store : Store) (uniform : store.Uniform) (fuel : Nat)
    (held : AddressSet) (depth : Nat) (enabled : Bool) (log : TraceLog) :
    (∀ (grammar : Grammar) input, (grammar.read fuel input).Transparent held store depth enabled
      (grammar.untraced.read fuel input held (store.untraced log)).1) ∧
    ∀ (grammar : Grammar) value rest,
      (grammar.write fuel value rest).Transparent held store depth enabled
        (grammar.untraced.write fuel value rest held (store.untraced log)).1 := by
  refine ⟨fun grammar input => ?_, fun grammar value rest => ?_⟩
  · have repeats := (grammar.read_repeats fuel input held store log uniform).2
    rw [repeats]
    exact Run.transparent_of_logs (grammar.read_logs fuel input) held store depth enabled
  · have repeats := (grammar.write_repeats fuel value rest held store log uniform).2
    rw [repeats]
    exact Run.transparent_of_logs (grammar.write_logs fuel value rest) held store depth enabled

/-- A digit and the same digit again, traced as a whole and in its parts. -/
def tracedTwice : Definition :=
  .traced "twice".toList
    (.repeated (.traced "digit".toList (.primitive (.satisfy (Test.inClass .digit)))) id)

/-- The definition is built when it is first used, and a sink that refuses what does not fit stops that
use in the middle of its third line. -/
theorem transparent_tracedTwice :
    let store := (Store.new (.limited 40 true)).addCell (.pending ⟨0, [], [], tracedTwice⟩)
    let ran := (shared 0).read 1 [.char '1', .char '1'] ∅ store
    ran.1 = .stopped .sink ∧
      ran.2.log.sink.written = "match twice\n  match digit\n  match digit:".toList := by
  have uniform : ((Store.new .unlimited).addCell (.pending ⟨0, [], [], tracedTwice⟩)).Uniform := by
    intro factory member
    obtain rfl : factory = ⟨0, [], [], tracedTwice⟩ := by
      simpa [Store.addCell, Store.new] using member
    exact Definition.uniform_repeated id trivial
  have refused := ((transparent_of_uniform _ uniform 1 ∅ 0 true (.new .unlimited)).1
    (shared 0) [.char '1', .char '1']).refused (.limited 40 true) 40 rfl ⟨rfl, by simp [Sink.limited]⟩
    (by decide)
  exact ⟨refused.1, refused.2.trans (by decide)⟩

end Grammar

end TwoWayGrammar
