import RichDoc.Markdown.HtmlScan
import RichDoc.Markdown.Token

/-! # What interrupts a paragraph

A line that starts another block, or is blank, ends the paragraph before it (`interrupts`). Not every
list marker does: an empty item, or a number other than one, starts a list only where the line has left
the containers of the paragraph. -/

namespace RichDoc.Markdown

variable (s : Source) (path : List Container)

/-- The number of bars up to the end of the line, the offset of the last one, and the next line. -/
def countBars : Nat → Nat → Bool → Nat → Nat → Option (Nat × Nat × Nat)
  | 0, _, _, _, _ => none
  | fuel + 1, i, escaped, bars, last =>
    match s.byte? i with
    | none => none
    | some b =>
      if b == 92 then countBars fuel (i + 1) true bars last
      else if b == 124 && !escaped then countBars fuel (i + 1) false (bars + 1) i
      else if b == 10 || b == 13 then some (bars, last, (lineEnd? s i).getD i)
      else countBars fuel (i + 1) false bars last

/-- A table starts at the bar at `i`. -/
def startsTable (i : Nat) : Bool :=
  s.hasByte i 124 &&
    match countBars s (s.size + 1 - i) i false 0 i with
    | some (bars, last, next) => (tableBelow? s path next (headColumns s i bars last)).isSome
    | none => false

/-- A list marker at `i` starts a list. -/
def startsList (inside inTable : Bool) (i : Nat) : Bool :=
  match listMarker? s i with
  | some (j, mark, n) =>
    !inside || inTable || ((mark == 42 || mark == 45 || mark == 43 || n == 1) && (blankLine? s j).isNone)
  | none => false

/-- A block other than a table starts at `i`, or the line is blank. -/
def startsBlock (inside inTable : Bool) (i : Nat) : Bool :=
  (lineEnd? s i).isSome || (thematicBreak? s i).isSome || (headingLevel? s i).isSome ||
    (fence? s i).isSome || s.hasByte i 62 || startsList s inside inTable i ||
    (s.hasByte i 60 && ((blockEnd? s (i + 1)).isSome || opensNamedBlock s (i + 1)))

/-- The line whose text starts at `i` ends a paragraph. -/
def interrupts (inside : Bool) (i : Nat) : Bool := startsBlock s inside false i || startsTable s path i

end RichDoc.Markdown
