import TwoWayGrammar.Cursor
import TwoWayGrammar.Prism.Table
import TwoWayGrammar.Session.Report
import TwoWayGrammar.Proofs.Run.Compatible
import TwoWayGrammar.Proofs.Run.Fuel
import TwoWayGrammar.Proofs.Store.Building
import TwoWayGrammar.Proofs.Store.History
import TwoWayGrammar.Proofs.Output.Quiet
import TwoWayGrammar.Proofs.Grammar.Chain
import TwoWayGrammar.Proofs.Grammar.Clauses
import TwoWayGrammar.Proofs.Grammar.Counting
import TwoWayGrammar.Proofs.Grammar.OneOrMore
import TwoWayGrammar.Proofs.Grammar.Capacity
import TwoWayGrammar.Proofs.Law.Restoring
import TwoWayGrammar.Proofs.Law.WriteAfterRead
import TwoWayGrammar.Proofs.Grammar.Finding
import TwoWayGrammar.Proofs.Law.ReadAfterWrite
import TwoWayGrammar.Proofs.Context.Faults
import TwoWayGrammar.Proofs.Decimal.Digits
import TwoWayGrammar.Proofs.Decimal.Numeral
import TwoWayGrammar.Proofs.Decimal.Reading
import TwoWayGrammar.Proofs.Decimal.Integral
import TwoWayGrammar.Proofs.Decimal.Rendering
import TwoWayGrammar.Proofs.Grammar.Remainder
import TwoWayGrammar.Proofs.Grammar.Rollback
import TwoWayGrammar.Proofs.Grammar.Spelling
import TwoWayGrammar.Proofs.Grammar.Row
import TwoWayGrammar.Proofs.Grammar.Prepending
import TwoWayGrammar.Proofs.Run.Ending
import TwoWayGrammar.Proofs.Run.Loop
import TwoWayGrammar.Proofs.Run.Mapping
import TwoWayGrammar.Proofs.Run.Repetition
import TwoWayGrammar.Proofs.Law.Correspondence
import TwoWayGrammar.Proofs.Law.Fallback
import TwoWayGrammar.Proofs.Codec.Frames
import TwoWayGrammar.Proofs.Grammar.Termination
import TwoWayGrammar.Proofs.Output.Depth
import TwoWayGrammar.Proofs.Output.Prefix
import TwoWayGrammar.Proofs.Output.Formatting
import TwoWayGrammar.Proofs.Trace.Following
import TwoWayGrammar.Proofs.Store.Conversion
import TwoWayGrammar.Proofs.Trace.CallTree
import TwoWayGrammar.Proofs.Trace.Transparency
import TwoWayGrammar.Proofs.Tree.Reading
import TwoWayGrammar.Proofs.Tree.Knots
import TwoWayGrammar.Proofs.Behaviour.Basic
import TwoWayGrammar.Proofs.Behaviour.Related
import TwoWayGrammar.Proofs.Schedule.Pool
import TwoWayGrammar.Proofs.Schedule.Once
import TwoWayGrammar.Proofs.Meaning.Fuelled
import TwoWayGrammar.Proofs.Meaning.Definition
import TwoWayGrammar.Proofs.Meaning.Building
import TwoWayGrammar.Proofs.Meaning.Delivery
import TwoWayGrammar.Proofs.Meaning.Family
import TwoWayGrammar.Proofs.Meaning.Deferral
import TwoWayGrammar.Proofs.Meaning.Independence
import TwoWayGrammar.Proofs.Meaning.Unrolling
import TwoWayGrammar.Proofs.Store.Soundness
import TwoWayGrammar.Proofs.Schedule.Moves
import TwoWayGrammar.Proofs.Schedule.Lifecycle
import TwoWayGrammar.Proofs.Codec.Letters
import TwoWayGrammar.Proofs.Codec.CountedText
import TwoWayGrammar.Proofs.Codec.Settings
import TwoWayGrammar.Proofs.Law.Repetition
import TwoWayGrammar.Proofs.Context.Agreement
