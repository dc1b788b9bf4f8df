import RichDoc.Data

/-! # What extensions declare

`NodeSpec` and `MarkSpec` say what a node or a mark of one type may hold; `Fragment` is either. -/

namespace RichDoc

/-- The marks that a node lets its children carry. -/
inductive MarkPolicy where
  | all
  | none
  | only (types : List String)
deriving DecidableEq, Repr, Inhabited

def MarkPolicy.allows : MarkPolicy → String → Bool
  | all, _ => true
  | none, _ => false
  | only types, t => types.contains t

/-- Declared attributes with their defaults; one without default has to be given. -/
abbrev AttrSpecs := StringMap (Option Json)

/-- What the nodes of one type may hold. Without `content` they are leaves. -/
structure NodeSpec where
  content : Option String := none
  groups : List String := []
  inline : Bool := false
  atom : Bool := false
  code : Bool := false
  defining : Bool := false
  marks : MarkPolicy := .all
  attrs : AttrSpecs := ∅
deriving DecidableEq, Repr

/-- What the marks of one type hold, and whether typing at their end goes on with them. -/
structure MarkSpec where
  attrs : AttrSpecs := ∅
  inclusive : Bool := true
deriving DecidableEq, Repr

/-- What an extension brings into the grammar. -/
inductive Fragment where
  | node (spec : NodeSpec)
  | mark (spec : MarkSpec)
deriving DecidableEq, Repr

end RichDoc
