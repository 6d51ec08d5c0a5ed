import TwoWayGrammar.Proofs.Behaviour.Basic

namespace TwoWayGrammar

/-- A traced grammar is used for reading or for writing. -/
inductive Operation where
  | reading
  | writing
  deriving DecidableEq

/-- Each operation has one word in the log. -/
def Operation.word : Operation → Text
  | .reading => "match".toList
  | .writing => "construct".toList

/-- A call of a traced grammar holds the calls inside it, in their order, and says whether it went
well. A call that never ended says neither. -/
inductive Call where
  | call (operation : Operation) (name : Text) (inside : List Call) (ending : Option Bool)

namespace Call

/-- A line is indented by two spaces for each level. -/
def line (depth : Nat) (content : Text) : Text := List.replicate (2 * depth) ' ' ++ content ++ ['\n']

/-- What ended went well or failed. -/
def verdict (ok : Bool) : Text := if ok then "ok".toList else "fail".toList

mutual

/-- The lines of a call are an entry, the lines of the calls inside one level deeper, and an exit if
the call has ended. -/
def text (depth : Nat) : Call → Text
  | call operation name inside ending =>
    line depth (operation.word ++ ' ' :: name) ++ texts (depth + 1) inside ++
      match ending with
      | some ok => line depth (operation.word ++ ' ' :: name ++ ": ".toList ++ verdict ok)
      | none => []

/-- Calls on one level follow each other. -/
def texts (depth : Nat) : List Call → Text
  | [] => []
  | first :: others => text depth first ++ texts depth others

end

mutual

/-- A call has ended when it has an exit, and so has every call inside it. -/
def Ended : Call → Prop
  | call _ _ inside ending => ending.isSome ∧ AllEnded inside

/-- All calls on one level have ended. -/
def AllEnded : List Call → Prop
  | [] => True
  | first :: others => Ended first ∧ AllEnded others

end

theorem allEnded_append {first second : List Call} :
    AllEnded (first ++ second) ↔ AllEnded first ∧ AllEnded second := by
  induction first with
  | nil => simp [AllEnded]
  | cons call calls ih => simp [AllEnded, ih, and_assoc]

end Call

/-- A fault is a failure, and what has no end has no verdict. -/
def Outcome.ending {α : Type} (ok : α → Bool) : Outcome α → Option Bool
  | .returned result => some (ok result)
  | .stopped _ => some false
  | .diverged => none

/-- What a recording comes to: an outcome, the store after it and the calls that were made. -/
structure Recorded (α : Type) where
  outcome : Outcome α
  after : Store
  calls : List Call

/-- A recording takes the held cells and the store before it to what it comes to. -/
def Recording (α : Type) : Type := AddressSet → Store → Recorded α

namespace Recording

variable {α β : Type}

/-- The calls of the next recording follow those of the first one. -/
def andThen (first : Recording α) (next : α → Recording β) : Recording β := fun held store =>
  match first held store with
  | ⟨.returned result, after, calls⟩ =>
    let later := next result held after
    ⟨later.outcome, later.after, calls ++ later.calls⟩
  | ⟨.stopped fault, after, calls⟩ => ⟨.stopped fault, after, calls⟩
  | ⟨.diverged, after, calls⟩ => ⟨.diverged, after, calls⟩

instance : Monad Recording where
  pure result := fun _ store => ⟨.returned result, store, []⟩
  bind := andThen

/-- A run of something else than a grammar makes no calls. -/
def silent (run : Run α) : Recording α := fun held store =>
  ⟨(run held store).1, (run held store).2, []⟩

instance : Faulting Recording := ⟨fun fault => silent (Run.stop fault), silent Run.diverge⟩

/-- A call ends as its recording does. -/
def calling (operation : Operation) (name : Text) (ok : α → Bool) (inside : Recording α) :
    Recording α := fun held store =>
  let recorded := inside held store
  { recorded with calls := [.call operation name recorded.calls (recorded.outcome.ending ok)] }

/-- The cells are held while the recording goes on, as for a run. -/
def holding (cells : AddressSet) (recording : Recording α) : Recording α := fun held store =>
  match recording (held ∪ cells) store with
  | ⟨.returned result, after, calls⟩ =>
    ⟨.returned result, if after.builds = store.builds then after else after.collect held, calls⟩
  | other => other

/-- What is recorded of a traced grammar is a call around what is recorded of its body. -/
def called (name : Text) (body : Behaviour Recording) : Behaviour Recording where
  read input := (body.read input).calling .reading name Match.accepted
  write value rest := (body.write value rest).calling .writing name fun _ => true

/-- Recordings wait in a loop as their patience allows, keep the calls of what is traced, and enter the
grammars of cells. -/
def interpretation (patience : Nat) (enter : Grammar → Behaviour Recording) :
    Interpretation Recording where
  loop item input := Behaviour.readMany item (input.length + 1 + patience) input
  traced := called
  shared cell :=
    ⟨fun input => silent (Run.resolve cell) >>= fun body => (enter body).read input,
      fun value rest => silent (Run.resolve cell) >>= fun body => (enter body).write value rest⟩
  handle cell :=
    ⟨fun input => holding {cell} (silent (Run.resolve cell) >>= fun body => (enter body).read input),
      fun value rest =>
        holding {cell} (silent (Run.resolve cell) >>= fun body => (enter body).write value rest)⟩

end Recording

namespace Grammar

/-- The recordings of a grammar, with fuel as for its runs. The parts call in the order of the input, both
alternatives on the same input, and each attempt of a loop, also the failed one at its end. What comes last
in the output is written first. -/
def recording : (fuel : Nat) → Grammar → Behaviour Recording
  | 0 => behaviour (Recording.interpretation 0 fun _ => .bottom)
  | fuel + 1 => behaviour (Recording.interpretation (fuel + 1) (recording fuel))

theorem recording_traced (fuel : Nat) (name : Text) (body : Grammar) :
    (traced name body).recording fuel = Recording.called name (body.recording fuel) := by
  cases fuel <;> rfl

end Grammar

end TwoWayGrammar
