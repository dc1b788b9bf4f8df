import RichDoc.Markdown.Containers

/-! # Raw HTML

What opens an HTML block and what ends it, and the tags, comments and declarations that may stand in a
line. A tag may run over several lines; what such a line owes to the open containers is no part of
it. -/

namespace RichDoc.Markdown

/-- A tag being read: the offset, the pieces kept so far, and where the piece being read starts. -/
structure TagScan where
  pos : Nat
  kept : List (Nat × Nat)
  last : Nat

namespace TagScan
variable (s : Source) (path? : Option (List Container))

/-- Goes on to the next line, for a tag that may run over lines. -/
def newline? (t : TagScan) (stop : Nat) : Option TagScan := do
  let path ← path?
  let j := skipContainers s path stop
  if stop < j then some ⟨j, t.kept ++ [(t.last, stop)], j⟩ else some { t with pos := j }

/-- White space and line endings. -/
def whitespace? : Nat → TagScan → Option TagScan
  | 0, t => some t
  | fuel + 1, t =>
    match s.byte? t.pos with
    | none => some t
    | some b =>
      if b == 10 || b == 13 then do whitespace? fuel (← newline? s path? t ((lineEnd? s t.pos).getD t.pos))
      else if isSpace b then whitespace? fuel { t with pos := t.pos + 1 }
      else some t

/-- The rest of a value up to the quote `q`. -/
def quoted? (q : UInt8) : Nat → TagScan → Option TagScan
  | 0, _ => none
  | fuel + 1, t =>
    match s.byte? t.pos with
    | none => none
    | some b =>
      if b == q then some { t with pos := t.pos + 1 }
      else if b == 10 || b == 13 then do quoted? q fuel (← newline? s path? t ((lineEnd? s t.pos).getD t.pos))
      else quoted? q fuel { t with pos := t.pos + 1 }

/-- No part of a value without quotes. -/
def endsValue (b : UInt8) : Bool :=
  b == 32 || b == 61 || b == 62 || b == 60 || b == 96 || b == 10 || b == 13

/-- A value, in quotes or without. -/
def value? (t : TagScan) : Option TagScan := do
  let b ← s.byte? t.pos
  if b == 34 || b == 39 then quoted? s path? b (s.size + 1 - t.pos) { t with pos := t.pos + 1 }
  else if endsValue b then none
  else some { t with pos := s.skipWhile (fun b => !(endsValue b || b == 34 || b == 39)) t.pos }

/-- An attribute with its value, if it has one. -/
def attribute? (t : TagScan) : Option TagScan := do
  let b ← s.byte? t.pos
  guard (isLetter b || b == 95 || b == 58)
  let named := { t with
    pos := s.skipWhile (fun b => isAlnum b || b == 95 || b == 46 || b == 58 || b == 45) (t.pos + 1) }
  let spaced ← whitespace? s path? (s.size + 1 - t.pos) named
  if s.hasByte spaced.pos 61 then
    let t ← whitespace? s path? (s.size + 1 - t.pos) { spaced with pos := spaced.pos + 1 }
    value? s path? t
  else some named

/-- Attributes, up to what ends the tag. -/
def attributes? : Nat → TagScan → Option TagScan
  | 0, _ => none
  | fuel + 1, t => do
    let old := t.pos
    let t ← whitespace? s path? (s.size + 1 - t.pos) t
    let b ← s.byte? t.pos
    if b == 47 || b == 62 then some t
    else if t.pos == old then none
    else attributes? fuel (← attribute? s path? t)

/-- An opening or closing tag at `i`. -/
def tag? (i : Nat) : Option TagScan := do
  let closing := s.hasByte (i + 1) 47
  let j := if closing then i + 2 else i + 1
  guard (s.satisfies j isLetter)
  let j := s.skipWhile (fun b => isAlnum b || b == 45) j
  let t : TagScan := ⟨j, [], i⟩
  let t ← if closing then some { t with pos := skipSpaces s j }
    else (attributes? s path? (s.size + 1 - i) t).map fun t => { t with pos := skipByte s 47 t.pos }
  if s.hasByte t.pos 62 then some { t with pos := t.pos + 1 } else none

/-- The text of a tag that was read to its end. -/
def text (t : TagScan) : String :=
  String.join ((t.kept ++ [(t.last, t.pos)]).map fun p => s.slice p.1 p.2)

end TagScan

section
variable (s : Source)

/-- After the next place where `word` stands. -/
def after? (word : List UInt8) (i : Nat) : Option Nat :=
  if i < s.size then
    if startsWith s word i then some (i + word.length) else after? word (i + 1)
  else none
termination_by s.size - i

/-- After a comment, a declaration or a section of character data whose `<!` ends at `i`. -/
def declaration? (i : Nat) : Option Nat := do
  let c ← s.byte? i
  if c == 45 then
    if s.hasByte (i + 1) 45 then after? s [45, 45, 62] i else none
  else if startsWith s [91, 67, 68, 65, 84, 65, 91] i then
    let j := s.skipWhile (· != 93) (i + 7)
    let k := s.skipWhile (· == 93) j
    if j < k && s.hasByte k 62 then some (k + 1) else none
  else if isLetter c then after? s [62] i
  else none

/-- Raw HTML at the `<` at `i`: its text and where it ends. -/
def inlineHtml? (path : List Container) (i : Nat) : Option (String × Nat) :=
  if s.hasByte (i + 1) 33 then (declaration? s (i + 2)).map fun j => (s.slice i j, j)
  else if s.hasByte (i + 1) 63 then (after? s [63, 62] (i + 2)).map fun j => (s.slice i j, j)
  else (TagScan.tag? s (some path) i).map fun t => (t.text s, t.pos)

/-- The names whose content is no Markdown, with what ends a block that one of them opens. -/
def rawNames : List (List UInt8 × List UInt8) := [
  ([112, 114, 101], [60, 47, 112, 114, 101, 62]),
  ([115, 116, 121, 108, 101], [60, 47, 115, 116, 121, 108, 101, 62]),
  ([115, 99, 114, 105, 112, 116], [60, 47, 115, 99, 114, 105, 112, 116, 62]),
  ([116, 101, 120, 116, 97, 114, 101, 97], [60, 47, 116, 101, 120, 116, 97, 114, 101, 97, 62])]

/-- What ends the HTML block whose `<` stands before `i`, if its first line says so. -/
def blockEnd? (i : Nat) : Option (List UInt8) :=
  let named := rawNames.find? fun p =>
    startsWithCased s p.1 i && match s.byte? (i + p.1.length) with
      | none => true
      | some b => isWhite b || b == 62
  match named with
  | some p => some p.2
  | none =>
    if startsWith s [33, 45, 45] i then some [45, 45, 62]
    else if startsWith s [63] i then some [63, 62]
    else if startsWith s [33, 91, 67, 68, 65, 84, 65, 91] i then some [93, 93, 62]
    else if s.hasByte i 33 && s.satisfies (i + 1) isLetter then some [62]
    else none

/-- The names of elements that start a block of their own. -/
def blockNames : List String := [
  "address", "article", "aside", "base", "basefont", "blockquote", "body", "caption", "center",
  "col", "colgroup", "dd", "details", "dialog", "dir", "div", "dl", "dt", "fieldset",
  "figcaption", "figure", "footer", "form", "frame", "frameset", "h1", "h2", "h3", "h4", "h5",
  "h6", "head", "header", "hr", "html", "iframe", "legend", "li", "link", "main", "menu",
  "menuitem", "nav", "noframes", "ol", "optgroup", "option", "p", "param", "search", "section",
  "summary", "table", "tbody", "td", "tfoot", "th", "thead", "title", "tr", "track", "ul"]

/-- The HTML block whose `<` stands before `i` ends at a blank line and may interrupt a paragraph. -/
def opensNamedBlock (i : Nat) : Bool :=
  let i := skipByte s 47 i
  let j := s.skipWhile isAlnum i
  let name := String.ofList ((s.slice i j).toList.map Char.toLower)
  blockNames.contains name && match s.byte? j with
    | none => true
    | some b => b == 32 || b == 9 || b == 13 || b == 10 || b == 62 || (b == 47 && s.hasByte (j + 1) 62)

/-- A tag alone on its line. -/
def opensTagBlock (i : Nat) : Bool :=
  match TagScan.tag? s none i with
  | some t => (blankLine? s t.pos).isSome
  | none => false

end
end RichDoc.Markdown
