/-! # Events

A Markdown text is read as a list of events: the start and the end of each construct, and what lies
between. A balanced list closes every construct it opens, but nothing in the type says so. -/

namespace RichDoc.Markdown

/-- The alignment of a table column. -/
inductive Alignment where
  | none | left | center | right
deriving DecidableEq, Repr

/-- A construct that holds others. `codeBlock` has the info text of a fenced block; `list` has the
first number of an ordered list. -/
inductive Tag where
  | paragraph
  | heading (level : Nat)
  | blockquote
  | codeBlock (info : Option String)
  | htmlBlock
  | list (first : Option Nat)
  | item
  | table (alignments : List Alignment)
  | tableHead
  | tableRow
  | tableCell
  | emphasis
  | strong
  | strikethrough
  | link (url title : String)
  | image (url title : String)
  | footnoteDefinition (label : String)
  | superscript
  | subscript
  | definitionList
  | definitionTerm
  | definitionDescription
  | metadata
deriving DecidableEq, Repr

/-- What is met on reading from start to end. -/
inductive Event where
  | start (tag : Tag)
  | stop
  | text (s : String)
  | code (s : String)
  | html (s : String)
  | inlineHtml (s : String)
  | inlineMath (s : String)
  | displayMath (s : String)
  | footnoteReference (label : String)
  | softBreak
  | hardBreak
  | rule
  | taskMarker (checked : Bool)
deriving DecidableEq, Repr

/-- The constructs that stand in a line of text. -/
def Tag.isInline : Tag → Bool
  | emphasis | strong | strikethrough | link .. | image .. | superscript | subscript => true
  | _ => false

end RichDoc.Markdown
