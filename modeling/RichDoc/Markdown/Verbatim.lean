import RichDoc.Markdown.Block
import RichDoc.Markdown.HtmlScan

/-! # Code and HTML blocks

Their lines are text as it stands, less what a line owes to the containers. Blanks left over from a tab
are kept, and a carriage return before a line feed is not. -/

namespace RichDoc.Markdown

variable (s : Source) (path : List Container)

/-- A line of text from `i` to `j` after `spare` blanks. -/
def verbatimLine (spare i j : Nat) : List TextRun :=
  let blanks : List TextRun := if 0 < spare then [⟨⟨i, i⟩, Text.replicate spare ' '⟩] else []
  blanks ++
    if 2 ≤ j && s.hasByte (j - 2) 13 then
      [⟨⟨i, j - 2⟩, s.slice i (j - 2)⟩, ⟨⟨j - 1, j⟩, s.slice (j - 1) j⟩]
    else [⟨⟨i, j⟩, s.slice i j⟩]

/-- The lines of a fenced block from `i` on: their text, where the block ends, and the next line. -/
def fencedFrom (indent : Nat) (mark : UInt8) (n : Nat) : Nat → Nat → List TextRun × Nat × Nat
  | 0, i => ([], i, i)
  | fuel + 1, i =>
    let (l, inside) := enterLine s path i
    if !inside || s.size ≤ i then ([], i, i)
    else
      let (l, _) := l.space indent
      let (c, deep) := l.space (4 - indent)
      match (if deep then none else closingFence? s mark n c.pos) with
      | some stop => ([], stop, (blankLine? s stop).getD stop)
      | none =>
        let next := nextLine s l.pos
        let (text, r) := fencedFrom indent mark n fuel next
        (verbatimLine s l.spare l.pos next ++ text, r)

/-- The fenced block whose fence of `n` marks stands at `start` after `indent` columns. -/
def fenced (start indent n : Nat) (mark : UInt8) : LeafEnd :=
  let i := skipSpaces s (start + n)
  let next := nextLine s i
  let info := unescape s false i (s.skipBack isWhite i next)
  let (text, stop, after) := fencedFrom s path indent mark n (s.size + 1 - next) next
  ⟨⟨start, stop⟩, .code (some info) text, after⟩

/-- An indented block read so far: its text up to the last line that is not blank, where that line ends,
and the text after it. -/
structure Indented where
  text : List TextRun
  stop : Nat
  pending : List TextRun

/-- The lines of an indented block from `i` on, the first of them blank if `blank`; also the next line
and whether the last line is blank. -/
def indentedFrom : Nat → Bool → Nat → Nat → Indented → Indented × Nat × Bool
  | 0, blank, _, i, d => (d, i, blank)
  | fuel + 1, blank, spare, i, d =>
    let next := nextLine s i
    let line := verbatimLine s spare i next
    let d := if blank then { d with pending := d.pending ++ line }
      else ⟨d.text ++ d.pending ++ line, next, []⟩
    let (l, inside) := enterLine s path next
    let (l, deep) := l.space 4
    if !inside || !(deep || l.atLineEnd) || s.size ≤ l.pos then (d, next, blank)
    else indentedFrom fuel (blankLine? s l.pos).isSome l.spare l.pos d

/-- The indented block at `start`, and whether blank lines follow it. -/
def indented (start spare : Nat) : LeafEnd × Bool :=
  let (d, next, blank) := indentedFrom s path (s.size + 1 - start) false spare start ⟨[], start, []⟩
  (⟨⟨start, d.stop⟩, .code none d.text, next⟩, blank)

/-- `word` stands somewhere between `i` and `j`. -/
def occurs (word : List UInt8) (i j : Nat) : Bool := (after? (s.upTo j) word i).isSome

/-- The lines of an HTML block from `i` on: their text, where the block ends, and the next line. A block
ends after a line with `word` in it, or before a blank line if there is no `word`. -/
def htmlFrom (word? : Option (List UInt8)) : Nat → Nat → Nat → List TextRun × Nat × Nat
  | 0, _, i => ([], i, i)
  | fuel + 1, spare, i =>
    let next := nextLine s i
    let line := verbatimLine s spare i next
    let (l, inside) := enterLine s path next
    let ended := match word? with
      | some word => occurs s word i next
      | none => l.atLineEnd
    if !inside || ended then (line, next, next)
    else
      let blank := word?.isNone && (blankLine? s l.pos).isSome
      if s.size ≤ l.pos || blank then (line, l.pos, next)
      else
        let (text, r) := htmlFrom word? fuel l.spare l.pos
        (line ++ text, r)

/-- The HTML block at `start` after `indent` columns. -/
def htmlBlock (word? : Option (List UInt8)) (start indent : Nat) : LeafEnd :=
  let (text, stop, next) := htmlFrom s path word? (s.size + 1 - start) indent start
  ⟨⟨start, stop⟩, .html text, next⟩

end RichDoc.Markdown
