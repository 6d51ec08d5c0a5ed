import TwoWayGrammar.Atom

namespace TwoWayGrammar

/-- A sink knows its room, if limited, what it does once broken, and the pieces that it has taken,
the latest one first. -/
structure Sink where
  room : Option Nat
  refuses : Bool
  broken : Bool
  pieces : List Text
  deriving DecidableEq

namespace Sink

/-- A sink without a limit takes everything. -/
def unlimited : Sink := ⟨none, false, false, []⟩

/-- A sink with a limit takes that many characters. -/
def limited (limit : Nat) (refuses : Bool) : Sink := ⟨some limit, refuses, false, []⟩

/-- The text that the sink has taken. -/
def written (sink : Sink) : Text := sink.pieces.reverse.flatten

/-- A piece of text is taken. -/
def take (sink : Sink) (piece : Text) : Sink := { sink with pieces := piece :: sink.pieces }

@[simp] theorem written_take (sink : Sink) (piece : Text) :
    (sink.take piece).written = sink.written ++ piece := by
  simp [written, take]

/-- A broken sink refuses the write or lets it pass in silence. -/
def deny (sink : Sink) : Except Sink Sink :=
  if sink.refuses then .error sink else .ok sink

/-- A write appends the piece, or the part of it that fits. Either result holds the next sink. -/
def write (sink : Sink) (piece : Text) : Except Sink Sink :=
  if sink.broken then sink.deny
  else
    match sink.room with
    | none => .ok (sink.take piece)
    | some room =>
      if piece.length ≤ room then
        .ok { sink.take piece with room := some (room - piece.length) }
      else
        deny { sink.take (piece.take room) with room := some 0, broken := true }

/-- The pieces go out in order up to the first refusal. -/
def writeAll (sink : Sink) (pieces : List Text) : Except Sink Sink :=
  pieces.foldlM write sink

@[simp] theorem writeAll_nil (sink : Sink) : sink.writeAll [] = .ok sink := rfl

theorem writeAll_cons (sink : Sink) (piece : Text) (pieces : List Text) :
    sink.writeAll (piece :: pieces) = sink.write piece >>= fun next => next.writeAll pieces := rfl

/-- A sink without a limit never breaks and takes the pieces one after the other. -/
theorem writeAll_unlimited (sink : Sink) (pieces : List Text) (whole : sink.broken = false)
    (endless : sink.room = none) : sink.writeAll pieces = .ok (pieces.foldl take sink) := by
  induction pieces generalizing sink with
  | nil => rfl
  | cons piece pieces ih =>
    have step : sink.write piece = .ok (sink.take piece) := by
      simp [write, whole, endless]
    rw [writeAll_cons, step]
    exact ih (sink.take piece) whole endless

theorem written_foldl_take (sink : Sink) (pieces : List Text) :
    (pieces.foldl take sink).written = sink.written ++ pieces.flatten := by
  induction pieces generalizing sink with
  | nil => simp
  | cons piece pieces ih => simp [ih]

end Sink

end TwoWayGrammar
