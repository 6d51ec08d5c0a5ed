import TwoWayGrammar.Output.Format

namespace TwoWayGrammar

/-- A log has a sink, a depth and a switch. -/
structure TraceLog where
  sink : Sink
  depth : Nat
  enabled : Bool
  deriving DecidableEq

namespace TraceLog

/-- A new log is enabled and at depth zero. -/
def new (sink : Sink) : TraceLog := ⟨sink, 0, true⟩

/-- Each level indents a line by two spaces, written one level at a time. -/
def indentation (depth : Nat) : List Text := List.replicate depth [' ', ' ']

/-- An entry line names an operation and what it works on. -/
def entryLine (depth : Nat) (operation name : Text) : List Text :=
  indentation depth ++ [Text.untilNul operation, [' '], name, ['\n']]

/-- An exit line adds whether the operation went well. -/
def exitLine (depth : Nat) (operation name : Text) (ok : Bool) : List Text :=
  indentation depth ++
    [Text.untilNul operation, [' '], name, [':', ' '],
      if ok then ['o', 'k'] else ['f', 'a', 'i', 'l'], ['\n']]

/-- An enabled log sends the pieces to its sink, and a muted one drops them. -/
def put (log : TraceLog) (pieces : List Text) : Except TraceLog TraceLog :=
  if log.enabled then
    match log.sink.writeAll pieces with
    | .ok sink => .ok { log with sink }
    | .error sink => .error { log with sink }
  else .ok log

/-- Entering writes the line and then goes one level deeper. A refused line leaves the depth. -/
def enter (log : TraceLog) (operation name : Text) : Except TraceLog TraceLog :=
  (log.put (entryLine log.depth operation name)).map fun next =>
    { next with depth := next.depth + 1 }

/-- Leaving goes one level up and then writes the line. Depth zero is the top. -/
def leave (log : TraceLog) (operation name : Text) (ok : Bool) : Except TraceLog TraceLog :=
  let raised := { log with depth := log.depth - 1 }
  raised.put (exitLine raised.depth operation name ok)

/-- A muted log changes its depth only. -/
theorem enter_of_muted (log : TraceLog) (muted : log.enabled = false) (operation name : Text) :
    log.enter operation name = .ok { log with depth := log.depth + 1 } := by
  simp [enter, put, muted, Except.map]

/-- A muted log leaves in silence. -/
theorem leave_of_muted (log : TraceLog) (muted : log.enabled = false) (operation name : Text)
    (ok : Bool) : log.leave operation name ok = .ok { log with depth := log.depth - 1 } := by
  simp [leave, put, muted]

end TraceLog

end TwoWayGrammar
