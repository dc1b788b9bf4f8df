import RichDoc.Markdown.Token

/-! # Blocks

The block structure of a text: containers and what they hold. The text of paragraphs, headings and
table cells is kept as tokens. -/

namespace RichDoc.Markdown

/-- A stretch of the text of a code or HTML block. -/
structure TextRun where
  span : Span
  text : String
deriving Repr

/-- A table cell. -/
structure Cell where
  span : Span
  tokens : List Token
deriving Repr

/-- A table row. -/
structure Row where
  span : Span
  cells : List Cell
deriving Repr

/-- A block that holds no blocks. `code` has the info text of a fenced block; `task` is a task marker with
nothing after it. -/
inductive Leaf where
  | paragraph (tokens : List Token)
  | heading (level : Nat) (tokens : List Token)
  | code (info : Option String) (text : List TextRun)
  | html (text : List TextRun)
  | rule
  | task (checked : Bool)
  | table (alignments : List Alignment) (rows : List Row)
deriving Repr

/-- A block. A list has the first number of an ordered list and is tight if no blank line parts its
contents; the indentation of an item is that of its contents. -/
inductive Block where
  | leaf (span : Span) (content : Leaf)
  | quote (span : Span) (children : List Block)
  | list (span : Span) (tight : Bool) (first : Option Nat) (children : List Block)
  | item (span : Span) (indent : Nat) (children : List Block)
deriving Repr, Inhabited

/-- A leaf with its span, and the offset where the next line starts. -/
structure LeafEnd where
  span : Span
  content : Leaf
  next : Nat

end RichDoc.Markdown
