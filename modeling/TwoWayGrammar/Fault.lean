import TwoWayGrammar.Atom

namespace TwoWayGrammar

/-- A grammar fault is the misuse of a match, of a recursive definition or of a deferred one. -/
inductive GrammarFault where
  | failedMatch
  | released
  | unfinished
  | factory (message : Text)
  deriving DecidableEq

/-- Each grammar fault has one wording. A factory brings its own, as terminated text. -/
def GrammarFault.message : GrammarFault → Text
  | .failedMatch => "value of a failed match".toList
  | .released => "recursive grammar used after its definition was released".toList
  | .unfinished => "recursive grammar used before its definition is complete".toList
  | .factory message => Text.untilNul message

/-- A run ends early by a grammar fault, by a refused write, by a name that stands for nothing, by a
value of the wrong shape, or by a count beyond every list. -/
inductive Fault where
  | grammar (cause : GrammarFault)
  | sink
  | unknownName (name : Text)
  | shape
  | overlong (count : Nat)
  deriving DecidableEq

end TwoWayGrammar
