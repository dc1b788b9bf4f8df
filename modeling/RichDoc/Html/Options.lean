/-! # HTML settings -/

namespace RichDoc.Html

/-- `skipVoid`: elements without a closing tag open no pair. `rooting`: literals outside of text go into
paragraphs. -/
structure Options where
  skipVoid : Bool := false
  rooting : Bool := true
deriving DecidableEq, Repr

end RichDoc.Html
