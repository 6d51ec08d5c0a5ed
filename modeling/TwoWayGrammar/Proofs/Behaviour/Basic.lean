import TwoWayGrammar.Proofs.Grammar.Clauses

namespace TwoWayGrammar

/-- Computations of this kind may stop with a fault or go on without end. -/
class Faulting (m : Type → Type) where
  stop : {α : Type} → Fault → m α
  diverge : {α : Type} → m α

instance : Faulting Run := ⟨Run.stop, Run.diverge⟩

/-- A behaviour takes a value off the front of an input, and puts a value in front of a rest. -/
@[ext]
structure Behaviour (m : Type → Type) where
  read : Input → m (Match Value)
  write : Value → Input → m Input

namespace Behaviour

variable {m : Type → Type} [Monad m] [Faulting m] {α β : Type}

/-- A success goes on with its value and remainder, and a failure stays a failure. -/
def onSuccess (found : m (Match α)) (next : α → Input → m (Match β)) : m (Match β) := do
  match ← found with
  | .success value rest => next value rest
  | .failure rest => return .failure rest

/-- A failure goes on with the other computation, and a success stays a success. -/
def onFailure (found other : m (Match α)) : m (Match α) := do
  match ← found with
  | .success value rest => return .success value rest
  | .failure _ => other

/-- Reading as often as possible, with a limit on the attempts. -/
def readMany (item : Input → m (Match α)) : Nat → Input → m (List α × Input)
  | 0, _ => Faulting.diverge
  | attempts + 1, input => do
    match ← item input with
    | .success value rest =>
      let (values, last) ← readMany item attempts rest
      return (value :: values, last)
    | .failure _ => return ([], input)

/-- Reading a fixed number of times. -/
def readTimes (item : Input → m (Match α)) : Nat → Input → m (Match (List α))
  | 0, input => return .success [] input
  | times + 1, input =>
    onSuccess (item input) fun value rest =>
      onSuccess (readTimes item times rest) fun values last =>
        return .success (value :: values) last

/-- Writing items from the last to the first. -/
def writeEach (item : α → Input → m Input) : List α → Input → m Input
  | [], rest => return rest
  | value :: values, rest => do
    let after ← writeEach item values rest
    item value after

/-- A missing result is a fault. -/
def orStop (result : Option α) (fault : Fault) : m α :=
  match result with
  | some value => pure value
  | none => Faulting.stop fault

/-- A loop reads its items until one fails. -/
abbrev Loop (m : Type → Type) : Type :=
  (Input → m (Match Value)) → Input → m (List Value × Input)

/-- No behaviour at all. -/
def bottom : Behaviour m := ⟨fun _ => Faulting.diverge, fun _ _ => Faulting.diverge⟩

def primitive (base : Primitive) : Behaviour m where
  read input := return base.read input
  write value rest := orStop (base.write? value rest) .shape

def adapt (prism : ValuePrism) (body : Behaviour m) : Behaviour m where
  read input := onSuccess (body.read input) fun representation rest =>
    match prism.preview representation with
    | some value => return .success value rest
    | none => return .failure rest
  write value rest := body.write (prism.review value) rest

def sequence (first second : Behaviour m) : Behaviour m where
  read input := onSuccess (first.read input) fun firstValue rest =>
    onSuccess (second.read rest) fun secondValue last =>
      return .success (.pair firstValue secondValue) last
  write value rest :=
    match value with
    | .pair firstValue secondValue => do
      let after ← second.write secondValue rest
      first.write firstValue after
    | _ => Faulting.stop .shape

def thenDiscard (body mark : Behaviour m) : Behaviour m where
  read input := onSuccess (body.read input) fun value rest =>
    onSuccess (mark.read rest) fun _ last => return .success value last
  write value rest := do
    let after ← mark.write .unit rest
    body.write value after

def discardThen (mark body : Behaviour m) : Behaviour m where
  read input := onSuccess (mark.read input) fun _ rest => body.read rest
  write value rest := do
    let after ← body.write value rest
    mark.write .unit after

def choice (first second : Behaviour m) : Behaviour m where
  read input := onFailure
    (onSuccess (first.read input) fun value rest => return .success (.left value) rest)
    (onSuccess (second.read input) fun value rest => return .success (.right value) rest)
  write value rest :=
    match value with
    | .left content => first.write content rest
    | .right content => second.write content rest
    | _ => Faulting.stop .shape

def many (loop : Loop m) (body : Behaviour m) : Behaviour m where
  read input := do
    let (values, rest) ← loop body.read input
    return .success (.list values) rest
  write value rest :=
    match value with
    | .list values => writeEach body.write values rest
    | _ => Faulting.stop .shape

def replicate (capacity : Capacity) (count : Nat) (body : Behaviour m) : Behaviour m where
  read input :=
    if capacity.items < count then Faulting.stop (.overlong count)
    else onSuccess (readTimes body.read count input) fun values rest =>
      return .success (.list values) rest
  write value rest :=
    match value with
    | .list values => writeEach body.write (values.take count) rest
    | _ => Faulting.stop .shape

def dependent (determinant : Behaviour m) (next : Value → Behaviour m) (extract : Value → Value) :
    Behaviour m where
  read input := onSuccess (determinant.read input) fun value rest => (next value).read rest
  write value rest := do
    let after ← (next (extract value)).write value rest
    determinant.write (extract value) after

def withDefault (default : Value) (body : Behaviour m) : Behaviour m where
  read input := onFailure (body.read input) (return .success default input)
  write value rest := if value = default then return rest else body.write value rest

def opt (body : Behaviour m) : Behaviour m where
  read input := onFailure
    (onSuccess (body.read input) fun value rest => return .success (.present value) rest)
    (return .success .absent input)
  write value rest :=
    match value with
    | .absent => return rest
    | .present content => body.write content rest
    | _ => Faulting.stop .shape

end Behaviour

/-- An interpretation says how loops go on, what tracing adds and what cells do. -/
structure Interpretation (m : Type → Type) where
  loop : Behaviour.Loop m
  traced : Text → Behaviour m → Behaviour m
  shared : Address → Behaviour m
  handle : Address → Behaviour m

/-- The behaviour of a grammar under an interpretation. -/
def Grammar.behaviour {m : Type → Type} [Monad m] [Faulting m]
    (interpretation : Interpretation m) : Grammar → Behaviour m
  | primitive base => .primitive base
  | adapt prism body => .adapt prism (body.behaviour interpretation)
  | sequence first second =>
    .sequence (first.behaviour interpretation) (second.behaviour interpretation)
  | thenDiscard body mark =>
    .thenDiscard (body.behaviour interpretation) (mark.behaviour interpretation)
  | discardThen mark body =>
    .discardThen (mark.behaviour interpretation) (body.behaviour interpretation)
  | choice first second =>
    .choice (first.behaviour interpretation) (second.behaviour interpretation)
  | many body => .many interpretation.loop (body.behaviour interpretation)
  | replicate capacity count body => .replicate capacity count (body.behaviour interpretation)
  | dependent determinant next extract _ =>
    .dependent (determinant.behaviour interpretation)
      (fun value => (next value).behaviour interpretation) extract
  | withDefault default body => .withDefault default (body.behaviour interpretation)
  | opt body => .opt (body.behaviour interpretation)
  | traced name body => interpretation.traced name (body.behaviour interpretation)
  | shared cell => interpretation.shared cell
  | handle cell => interpretation.handle cell

namespace Run

/-- Runs wait in a loop as their patience allows, log what is traced, and enter the grammars of
cells. -/
def interpretation (patience : Nat) (enter : Grammar → Behaviour Run) : Interpretation Run where
  loop item input := Run.readMany item (input.length + 1 + patience) input
  traced name body :=
    ⟨fun input => Run.traced "match".toList name Match.accepted (body.read input),
      fun value rest => Run.traced "construct".toList name (fun _ => true) (body.write value rest)⟩
  shared cell :=
    ⟨fun input => Run.resolve cell >>= fun body => (enter body).read input,
      fun value rest => Run.resolve cell >>= fun body => (enter body).write value rest⟩
  handle cell :=
    ⟨fun input => Run.holding {cell} (Run.resolve cell >>= fun body => (enter body).read input),
      fun value rest =>
        Run.holding {cell} (Run.resolve cell >>= fun body => (enter body).write value rest)⟩

end Run

namespace Behaviour

theorem readMany_run {α : Type} (item : Input → Run (Match α)) (attempts : Nat) (input : Input) :
    readMany item attempts input = Run.readMany item attempts input := by
  induction attempts generalizing input with
  | zero => rfl
  | succ attempts ih =>
    rw [readMany, funext ih]
    rfl

theorem readTimes_run {α : Type} (item : Input → Run (Match α)) (times : Nat) (input : Input) :
    readTimes item times input = Run.readTimes item times input := by
  induction times generalizing input with
  | zero => rfl
  | succ times ih =>
    rw [readTimes, funext ih]
    rfl

theorem writeEach_run {α : Type} (item : α → Input → Run Input) (values : List α) (rest : Input) :
    writeEach item values rest = Run.writeEach item values rest := by
  induction values with
  | nil => rfl
  | cons value values ih =>
    rw [writeEach, ih]
    rfl

end Behaviour

namespace Grammar

/-- Reading and writing by structure are the two directions of one behaviour. -/
theorem behaviour_interpretation (patience : Nat) (enter : Grammar → Behaviour Run)
    (grammar : Grammar) :
    grammar.behaviour (Run.interpretation patience enter) =
      ⟨grammar.readWith patience fun body => (enter body).read,
        grammar.writeWith fun body => (enter body).write⟩ := by
  induction grammar with
  | primitive base => rfl
  | adapt prism body ih => rw [behaviour, ih]; rfl
  | sequence first second firstIh secondIh => rw [behaviour, firstIh, secondIh]; rfl
  | thenDiscard body mark bodyIh markIh => rw [behaviour, bodyIh, markIh]; rfl
  | discardThen mark body markIh bodyIh => rw [behaviour, markIh, bodyIh]; rfl
  | choice first second firstIh secondIh => rw [behaviour, firstIh, secondIh]; rfl
  | many body ih =>
    rw [behaviour, ih, Behaviour.many]
    simp only [Behaviour.writeEach_run]
    rfl
  | replicate capacity count body ih =>
    rw [behaviour, ih, Behaviour.replicate]
    simp only [Behaviour.writeEach_run, Behaviour.readTimes_run]
    rfl
  | dependent determinant next extract captured determinantIh nextIh =>
    rw [behaviour, determinantIh, funext nextIh]
    rfl
  | withDefault default body ih => rw [behaviour, ih]; rfl
  | opt body ih => rw [behaviour, ih]; rfl
  | traced name body ih => rw [behaviour, ih]; rfl
  | shared cell => rfl
  | handle cell => rfl

/-- Both directions of a grammar with an amount of fuel. -/
def runs (fuel : Nat) (grammar : Grammar) : Behaviour Run := ⟨grammar.read fuel, grammar.write fuel⟩

/-- Both directions one level deeper. -/
def runsNested (fuel : Nat) (grammar : Grammar) : Behaviour Run :=
  ⟨grammar.readNested fuel, grammar.writeNested fuel⟩

theorem runs_eq (fuel : Nat) (grammar : Grammar) :
    grammar.runs fuel = grammar.behaviour (Run.interpretation fuel (runsNested fuel)) := by
  rw [runs, read_eq]
  refine Eq.trans ?_ (behaviour_interpretation fuel (runsNested fuel) grammar).symm
  cases fuel <;> rfl

end Grammar

end TwoWayGrammar
