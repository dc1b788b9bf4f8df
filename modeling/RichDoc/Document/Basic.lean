import RichDoc.Data

/-! # Documents

`Document` is a node of the document that is edited: a type, attributes, content, and for a text node
its text, with the marks it carries. `Grammar.node` and its companions build the valid ones.
`Document.textContent` and `Document.size` run over the whole of it. -/

namespace RichDoc

/-- Something said of a piece of inline content, such as emphasis or a link. -/
structure Mark where
  type : String
  attrs : Data
deriving DecidableEq, Repr, Inhabited

/-- A document or a part of one. -/
structure Document where
  type : String
  attrs : Data
  content : List Document
  text : Option String
  marks : List Mark
deriving Repr, Inhabited

namespace Document

def isText (d : Document) : Bool := d.text.isSome

def hasMark (d : Document) (type : String) : Bool := d.marks.any (·.type == type)

mutual
/-- The text of all text nodes in order; what a text node holds beside its text does not count. -/
def textContent : Document → String
  | ⟨_, _, cs, t, _⟩ =>
    match t with
    | some t => t
    | none => textContents cs

/-- The text of a list of nodes. -/
def textContents : List Document → String
  | [] => ""
  | d :: r => textContent d ++ textContents r
end

mutual
/-- The number of nodes. -/
def size : Document → Nat
  | ⟨_, _, cs, _, _⟩ => 1 + sizes cs

/-- The number of nodes in a list. -/
def sizes : List Document → Nat
  | [] => 0
  | d :: r => size d + sizes r
end

end Document
end RichDoc
