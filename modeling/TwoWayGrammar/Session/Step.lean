import TwoWayGrammar.Grammar.Read
import TwoWayGrammar.Grammar.Write

namespace TwoWayGrammar

/-- A step names what to do. A step that runs a grammar builds it from a definition first. -/
inductive Step where
  | define (name : Text) (definition : Definition)
  | drop (name : Text)
  | read (definition : Definition) (input : Input)
  | readValue (definition : Definition) (input : Input)
  | readFault (definition : Definition) (input : Input)
  | parseEach (definition : Definition) (inputs : List Input)
  | parse (definition : Definition) (input : Input)
  | parseAll (definition : Definition) (input : Input)
  | print (definition : Definition) (value : Value)
  | write (definition : Definition) (value : Value) (rest : Input)
  | readThenWrite (definition : Definition) (input : Input)
  | writeThenRead (definition : Definition) (value : Value) (rest : Input)
  | compare (first : Definition) (firstInput : Input) (second : Definition) (secondInput : Input)
  | depth
  | enable (on : Bool)
  | enabled
  | enter (operation name : Text)
  | leave (operation name : Text) (ok : Bool)
  | builds

/-- The answer to a step that was carried out. -/
inductive Answer where
  | done
  | read (found : Match Value)
  | value (value : Value)
  | caught (fault : GrammarFault)
  | uneventful
  | results (results : List (Except Fault (Option Value)))
  | parsed (value : Option Value)
  | written (written : Input)
  | readThenWritten (found : Match Value) (back : Option (Input × Bool))
  | writtenThenRead (written : Input) (found : Match Value) (same : Bool)
  | compared (equal : Bool)
  | depth (depth : Nat)
  | enabled (enabled : Bool)
  | builds (count : Nat)

/-- The value of a match, and a fault for a failure. -/
def Run.valueOf (found : Match Value) : Run Value :=
  match found.value with
  | .ok value => pure value
  | .error fault => Run.stop (.grammar fault)

/-- A grammar built for a step is held until the step is over. Building it may replace entries of the
table, and what only they owned is released first. -/
def Definition.use {α : Type} (definition : Definition) (next : Grammar → Run α) : Run α := do
  let built ← definition.build []
  Run.holding built.owned do
    Run.settle
    next built.grammar

namespace Step

/-- Carrying out a step. The fuel bounds each run of a grammar. -/
def run (fuel : Nat) : Step → Run Answer
  | define name definition => do
    let built ← definition.build []
    Run.modify fun store => store.define name built
    return .done
  | drop name => do
    let store ← Run.current
    let _ ← Run.orStop (store.find? name) (.unknownName name)
    Run.modify fun store => store.erase name
    return .done
  | read definition input => definition.use fun grammar => do
    return .read (← grammar.read fuel input)
  | readValue definition input => definition.use fun grammar => do
    return .value (← Run.valueOf (← grammar.read fuel input))
  | readFault definition input => definition.use fun grammar => do
    match ← Run.attempt (grammar.read fuel input >>= Run.valueOf) with
    | .ok _ => return .uneventful
    | .error (.grammar fault) => return .caught fault
    | .error fault => Run.stop fault
  | parseEach definition inputs => definition.use fun grammar => do
    return .results (← inputs.mapM fun input => do
      let result ← Run.attempt (grammar.parseAll fuel input)
      Run.settle
      return result)
  | parse definition input => definition.use fun grammar => do
    return .parsed (← grammar.parse fuel input)
  | parseAll definition input => definition.use fun grammar => do
    return .parsed (← grammar.parseAll fuel input)
  | print definition value => definition.use fun grammar => do
    return .written (← grammar.print fuel value)
  | write definition value rest => definition.use fun grammar => do
    return .written (← grammar.write fuel value rest)
  | readThenWrite definition input => definition.use fun grammar => do
    match ← grammar.read fuel input with
    | .success value rest =>
      let back ← grammar.write fuel value rest
      return .readThenWritten (.success value rest) (some (back, back = input))
    | .failure rest => return .readThenWritten (.failure rest) none
  | writeThenRead definition value rest => definition.use fun grammar => do
    let written ← grammar.write fuel value rest
    let found ← grammar.read fuel written
    return .writtenThenRead written found (found = .success value rest)
  | compare first firstInput second secondInput => first.use fun firstGrammar => do
    let firstFound ← firstGrammar.read fuel firstInput
    second.use fun secondGrammar => do
      let secondFound ← secondGrammar.read fuel secondInput
      return .compared (firstFound = secondFound)
  | depth => return .depth (← Run.current).log.depth
  | enable on => do
    Run.modify fun store => { store with log := { store.log with enabled := on } }
    return .done
  | enabled => return .enabled (← Run.current).log.enabled
  | enter operation name => do
    Run.logging fun log => log.enter operation name
    return .done
  | leave operation name ok => do
    Run.logging fun log => log.leave operation name ok
    return .done
  | builds => return .builds (← Run.current).builds

end Step

end TwoWayGrammar
