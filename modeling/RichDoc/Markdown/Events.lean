import RichDoc.Markdown.Brackets
import RichDoc.Markdown.Reader

/-! # The events of a text

The blocks of a text in order, each with its inline content. A paragraph right inside an item of a tight list
leaves no events of its own. -/

namespace RichDoc.Markdown

/-- A source and its definitions. -/
structure Context where
  source : Source
  definitions : StringMap (String × String)

namespace Context
variable (c : Context)

/-- The events of the text of a block that ends at `stop`. -/
def inlineEvents (path : List Container) (inTable : Bool) (stop : Nat) (ts : List Token) :
    List (Event × Span) :=
  Inline.listEvents <|
    TextBlock.inlines ⟨c.source.upTo stop, path, inTable, c.definitions.get?⟩ ts

/-- `inner` within a construct. -/
def within (tag : Tag) (r : Span) (inner : List (Event × Span)) : List (Event × Span) :=
  (.start tag, r) :: (inner ++ [(.stop, r)])

def cellEvents (path : List Container) (x : Cell) : List (Event × Span) :=
  within .tableCell x.span (c.inlineEvents path true x.span.stop x.tokens)

/-- The events of a row, which is the head if `head`. -/
def rowEvents (path : List Container) (head : Bool) (x : Row) : List (Event × Span) :=
  within (if head then .tableHead else .tableRow) x.span (x.cells.flatMap (c.cellEvents path))

/-- The events of a leaf; a paragraph is bare right inside an item of a tight list. -/
def leafEvents (path : List Container) (bare : Bool) (r : Span) : Leaf → List (Event × Span)
  | .paragraph ts =>
    let inner := c.inlineEvents path false r.stop ts
    if bare then inner else within .paragraph r inner
  | .heading level ts => within (.heading level) r (c.inlineEvents path false r.stop ts)
  | .code info text => within (.codeBlock info) r (text.map fun x => (.text x.text, x.span))
  | .html text => within .htmlBlock r (text.map fun x => (.html x.text, x.span))
  | .rule => [(.rule, r)]
  | .task checked => [(.taskMarker checked, r)]
  | .table alignments rows =>
    within (.table alignments) r <|
      match rows with
      | [] => []
      | head :: body => c.rowEvents path true head ++ body.flatMap (c.rowEvents path false)

mutual
/-- The events of a block inside the containers `path`; `tight` if these end in a tight list. -/
def blockEvents (path : List Container) (tight : Bool) : Block → List (Event × Span)
  | .leaf r l => c.leafEvents path tight r l
  | .quote r bs => within .blockquote r (listEvents (path ++ [.quote]) false bs)
  | .list r tight first bs => within (.list first) r (listEvents (path ++ [.list]) tight bs)
  | .item r indent bs => within .item r (listEvents (path ++ [.item indent]) tight bs)

/-- The events of blocks in order. -/
def listEvents (path : List Container) (tight : Bool) : List Block → List (Event × Span)
  | [] => []
  | b :: r => blockEvents path tight b ++ listEvents path tight r
end

end Context

/-- The events of a source. -/
def events (s : Source) : List (Event × Span) :=
  let d := Document.ofSource s
  Context.listEvents ⟨s, d.definitions⟩ [] false d.blocks

end RichDoc.Markdown
