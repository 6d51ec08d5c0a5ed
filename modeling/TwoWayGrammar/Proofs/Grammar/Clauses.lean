import TwoWayGrammar.Grammar.Read
import TwoWayGrammar.Grammar.Write

namespace TwoWayGrammar.Grammar

variable (fuel : Nat)

/-- Reading one level deeper has one unit of fuel less, and none is left at the bottom. -/
def readNested : (fuel : Nat) → Grammar → Input → Run (Match Value)
  | 0 => fun _ _ => Run.diverge
  | fuel + 1 => read fuel

/-- Writing one level deeper has one unit of fuel less, and none is left at the bottom. -/
def writeNested : (fuel : Nat) → Grammar → Value → Input → Run Input
  | 0 => fun _ _ _ => Run.diverge
  | fuel + 1 => write fuel

theorem read_eq (grammar : Grammar) :
    grammar.read fuel = grammar.readWith fuel (readNested fuel) := by
  cases fuel <;> rfl

section Reading

variable (input : Input)

theorem read_primitive (base : Primitive) :
    (primitive base).read fuel input = pure (base.read input) := by
  cases fuel <;> rfl

theorem read_adapt (prism : ValuePrism) (body : Grammar) :
    (adapt prism body).read fuel input =
      Run.onSuccess (body.read fuel input) fun representation rest =>
        match prism.preview representation with
        | some value => return .success value rest
        | none => return .failure rest := by
  cases fuel <;> rfl

theorem read_sequence (first second : Grammar) :
    (sequence first second).read fuel input =
      Run.onSuccess (first.read fuel input) fun firstValue rest =>
        Run.onSuccess (second.read fuel rest) fun secondValue last =>
          return .success (.pair firstValue secondValue) last := by
  cases fuel <;> rfl

theorem read_thenDiscard (body mark : Grammar) :
    (thenDiscard body mark).read fuel input =
      Run.onSuccess (body.read fuel input) fun value rest =>
        Run.onSuccess (mark.read fuel rest) fun _ last => return .success value last := by
  cases fuel <;> rfl

theorem read_discardThen (mark body : Grammar) :
    (discardThen mark body).read fuel input =
      Run.onSuccess (mark.read fuel input) fun _ rest => body.read fuel rest := by
  cases fuel <;> rfl

theorem read_choice (first second : Grammar) :
    (choice first second).read fuel input =
      Run.onFailure
        (Run.onSuccess (first.read fuel input) fun value rest => return .success (.left value) rest)
        (Run.onSuccess (second.read fuel input) fun value rest =>
          return .success (.right value) rest) := by
  cases fuel <;> rfl

theorem read_many (body : Grammar) :
    (many body).read fuel input =
      (Run.readMany (body.read fuel) (input.length + 1 + fuel) input >>= fun found =>
        pure (.success (.list found.1) found.2)) := by
  cases fuel <;> rfl

theorem read_replicate (capacity : Capacity) (count : Nat) (body : Grammar) :
    (replicate capacity count body).read fuel input =
      if capacity.items < count then Run.stop (.overlong count)
      else Run.onSuccess (Run.readTimes (body.read fuel) count input) fun values rest =>
        return .success (.list values) rest := by
  cases fuel <;> rfl

theorem read_dependent (determinant : Grammar) (next : Value → Grammar) (extract : Value → Value)
    (captured : AddressSet) :
    (dependent determinant next extract captured).read fuel input =
      Run.onSuccess (determinant.read fuel input) fun value rest =>
        (next value).read fuel rest := by
  cases fuel <;> rfl

theorem read_withDefault (default : Value) (body : Grammar) :
    (withDefault default body).read fuel input =
      Run.onFailure (body.read fuel input) (return .success default input) := by
  cases fuel <;> rfl

theorem read_opt (body : Grammar) :
    (opt body).read fuel input =
      Run.onFailure
        (Run.onSuccess (body.read fuel input) fun value rest => return .success (.present value) rest)
        (return .success .absent input) := by
  cases fuel <;> rfl

theorem read_traced (name : Text) (body : Grammar) :
    (traced name body).read fuel input =
      Run.traced "match".toList name Match.accepted (body.read fuel input) := by
  cases fuel <;> rfl

theorem read_shared (cell : Address) :
    (shared cell).read fuel input =
      (Run.resolve cell >>= fun body => body.readNested fuel input) := by
  cases fuel <;> rfl

theorem read_handle (cell : Address) :
    (handle cell).read fuel input = Run.holding {cell} ((shared cell).read fuel input) := by
  cases fuel <;> rfl

end Reading

section Writing

variable (rest : Input)

theorem write_primitive (base : Primitive) (value : Value) :
    (primitive base).write fuel value rest = Run.orStop (base.write? value rest) .shape := by
  cases fuel <;> rfl

theorem write_adapt (prism : ValuePrism) (body : Grammar) (value : Value) :
    (adapt prism body).write fuel value rest = body.write fuel (prism.review value) rest := by
  cases fuel <;> rfl

theorem write_sequence (first second : Grammar) (firstValue secondValue : Value) :
    (sequence first second).write fuel (.pair firstValue secondValue) rest =
      (second.write fuel secondValue rest >>= fun after => first.write fuel firstValue after) := by
  cases fuel <;> rfl

theorem write_thenDiscard (body mark : Grammar) (value : Value) :
    (thenDiscard body mark).write fuel value rest =
      (mark.write fuel .unit rest >>= fun after => body.write fuel value after) := by
  cases fuel <;> rfl

theorem write_discardThen (mark body : Grammar) (value : Value) :
    (discardThen mark body).write fuel value rest =
      (body.write fuel value rest >>= fun after => mark.write fuel .unit after) := by
  cases fuel <;> rfl

theorem write_choice_left (first second : Grammar) (value : Value) :
    (choice first second).write fuel (.left value) rest = first.write fuel value rest := by
  cases fuel <;> rfl

theorem write_choice_right (first second : Grammar) (value : Value) :
    (choice first second).write fuel (.right value) rest = second.write fuel value rest := by
  cases fuel <;> rfl

theorem write_many (body : Grammar) (values : List Value) :
    (many body).write fuel (.list values) rest = Run.writeEach (body.write fuel) values rest := by
  cases fuel <;> rfl

theorem write_replicate (capacity : Capacity) (count : Nat) (body : Grammar) (values : List Value) :
    (replicate capacity count body).write fuel (.list values) rest =
      Run.writeEach (body.write fuel) (values.take count) rest := by
  cases fuel <;> rfl

theorem write_dependent (determinant : Grammar) (next : Value → Grammar) (extract : Value → Value)
    (captured : AddressSet) (value : Value) :
    (dependent determinant next extract captured).write fuel value rest =
      ((next (extract value)).write fuel value rest >>= fun after =>
        determinant.write fuel (extract value) after) := by
  cases fuel <;> rfl

theorem write_withDefault (default : Value) (body : Grammar) (value : Value) :
    (withDefault default body).write fuel value rest =
      if value = default then pure rest else body.write fuel value rest := by
  cases fuel <;> rfl

theorem write_opt_absent (body : Grammar) :
    (opt body).write fuel .absent rest = pure rest := by
  cases fuel <;> rfl

theorem write_opt_present (body : Grammar) (value : Value) :
    (opt body).write fuel (.present value) rest = body.write fuel value rest := by
  cases fuel <;> rfl

theorem write_traced (name : Text) (body : Grammar) (value : Value) :
    (traced name body).write fuel value rest =
      Run.traced "construct".toList name (fun _ => true) (body.write fuel value rest) := by
  cases fuel <;> rfl

theorem write_shared (cell : Address) (value : Value) :
    (shared cell).write fuel value rest =
      (Run.resolve cell >>= fun body => body.writeNested fuel value rest) := by
  cases fuel <;> rfl

theorem write_handle (cell : Address) (value : Value) :
    (handle cell).write fuel value rest =
      Run.holding {cell} ((shared cell).write fuel value rest) := by
  cases fuel <;> rfl

end Writing

end TwoWayGrammar.Grammar
