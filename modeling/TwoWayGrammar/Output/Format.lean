import TwoWayGrammar.Output.Sink
import TwoWayGrammar.Decimal.Numeral

namespace TwoWayGrammar

/-- An item is a character, a truth value, an integer, a terminated buffer, a text or a line end. -/
inductive FormatItem where
  | char (character : Char)
  | bool (value : Bool)
  | integer (type : IntegerType) (value : Int)
  | terminated (buffer : Text)
  | text (content : Text)
  | lineEnd

namespace FormatItem

/-- Integers of every width are numerals, and only a terminated buffer is cut. -/
def render : FormatItem → Text
  | .char character => [character]
  | .bool value => if value then "true".toList else "false".toList
  | .integer type value => type.render value
  | .terminated buffer => Text.untilNul buffer
  | .text content => content
  | .lineEnd => ['\n']

/-- The items go to the sink in order up to the first refusal. -/
def send (sink : Sink) (items : List FormatItem) : Except Sink Sink :=
  sink.writeAll (items.map render)

end FormatItem

end TwoWayGrammar
