import TwoWayGrammar.Proofs.Grammar.Counting

namespace TwoWayGrammar

namespace NonEmpty

variable {α : Type} {first second : NonEmpty α}

end NonEmpty

namespace Grammar

variable {held wider : AddressSet} {store middle after now : Store} {body : Grammar}
  {input rest left : Input} {values : List Value}

end Grammar

end TwoWayGrammar
