import TwoWayGrammar.Session.Step

namespace TwoWayGrammar

/-- A report has the outcome of a step and the text that reached the sink during the step. -/
structure Report where
  outcome : Outcome Answer
  trace : Text

namespace Session

/-- Definitions nest at most this deep at run time, and no loop goes on for longer without taking an
atom off. -/
def fuel : Nat := 1000000

/-- The text taken so far is handed over, and the room left stays as it is. -/
def handOver (store : Store) : Store :=
  { store with log := { store.log with sink := { store.log.sink with pieces := [] } } }

/-- A step is reported whether it succeeds or not. What it alone kept alive ends with it. -/
def report (store : Store) (step : Step) : Report × Store :=
  let (outcome, after) := step.run fuel ∅ (handOver store)
  (⟨outcome, after.log.sink.written⟩, after.collect ∅)

/-- After a step that stops, the session goes on with the next one. -/
def reports (store : Store) : List Step → List Report
  | [] => []
  | step :: steps =>
    let (first, next) := report store step
    first :: reports next steps

/-- A session starts in a new store over its sink. -/
def run (sink : Sink) (steps : List Step) : List Report :=
  reports (Store.new sink) steps

end Session

end TwoWayGrammar
