import RichDoc.Markdown.Scan

/-! # The start of a line

`LineStart` is a place in the indentation of a line. A tab reaches to the next multiple of four
columns after the last tab, so part of one may be left over (`spare`) for what comes next. -/

namespace RichDoc.Markdown

/-- A place at the start of a line: the offset, the offset after the last tab, and the columns of a
tab that are still to be used. -/
structure LineStart where
  source : Source
  pos : Nat
  tabStart : Nat
  spare : Nat

namespace LineStart

/-- The line that starts at `i`. -/
def ofPos (s : Source) (i : Nat) : LineStart := ⟨s, i, i, 0⟩

/-- Uses up to `n` columns of blanks; the second part is how many were wanting. -/
def takeColumns (l : LineStart) : Nat → LineStart × Nat
  | 0 => (l, 0)
  | n + 1 =>
    if 0 < l.spare then { l with spare := l.spare - 1 }.takeColumns n
    else if l.source.hasByte l.pos 32 then { l with pos := l.pos + 1 }.takeColumns n
    else if l.source.hasByte l.pos 9 then
      let width := 4 - (l.pos - l.tabStart) % 4
      { l with pos := l.pos + 1, tabStart := l.pos + 1, spare := width - 1 }.takeColumns n
    else (l, n + 1)

/-- Uses `n` columns; the second part says whether there were as many. -/
def space (l : LineStart) (n : Nat) : LineStart × Bool :=
  let (l, wanting) := l.takeColumns n
  (l, wanting == 0)

/-- Uses up to `n` columns; the second part is how many there were. -/
def spaceUpTo (l : LineStart) (n : Nat) : LineStart × Nat :=
  let (l, wanting) := l.takeColumns n
  (l, n - wanting)

/-- Uses all blanks and tabs. -/
def allSpace (l : LineStart) : LineStart :=
  { l with spare := 0, pos := l.source.skipWhile (fun b => b == 32 || b == 9) l.pos }

/-- Nothing is left on the line. -/
def atLineEnd (l : LineStart) : Bool :=
  match l.source.byte? l.pos with
  | none => true
  | some b => Source.isLineEnd b

/-- A block quote mark and one column after it. -/
def quoteMark? (l : LineStart) : Option LineStart :=
  if l.source.hasByte l.pos 62 then some ({ l with pos := l.pos + 1 }.space 1).1 else none

/-- A list marker: its mark, its number and the columns up to the content, of which `indent` stand
before the marker. -/
structure Marker where
  mark : UInt8
  number : Nat
  indent : Nat

/-- The columns after a marker belong to it, but not four or more, which start indented code. -/
def finishMarker (l : LineStart) (mark : UInt8) (number indent : Nat) : LineStart × Marker :=
  if (blankLine? l.source l.pos).isSome then (l, ⟨mark, number, indent⟩)
  else
    let (l', n) := l.spaceUpTo 4
    if n < 4 then (l', ⟨mark, number, indent + n⟩) else (l, ⟨mark, number, indent⟩)

/-- The marker ends the line or a column follows it. -/
def afterMarker? (l : LineStart) (mark : UInt8) (number indent : Nat) : Option (LineStart × Marker) :=
  let (l', found) := l.space 1
  if found || l'.atLineEnd then some (l'.finishMarker mark number indent) else none

/-- A list marker with `indent` columns before it. -/
def marker? (l : LineStart) (indent : Nat) : Option (LineStart × Marker) := do
  let c ← l.source.byte? l.pos
  if c == 45 || c == 43 || c == 42 then
    if (thematicBreak? l.source l.pos).isSome then none
    else LineStart.afterMarker? { l with pos := l.pos + 1 } c 0 (indent + 2)
  else if isDigit c then
    let j := l.source.skipWhile isDigit l.pos
    let d ← l.source.byte? j
    if j - l.pos ≤ 9 && (d == 46 || d == 41) then
      LineStart.afterMarker? { l with pos := j + 1 } d (decimal l.source l.pos j) (indent + 2 + (j - l.pos))
    else none
  else none

/-- A task marker: whether it is checked. -/
def task? (l : LineStart) : Option (LineStart × Bool) := do
  let l := (l.spaceUpTo 3).1
  let s := l.source
  guard (s.hasByte l.pos 91)
  let c ← s.byte? (l.pos + 1)
  let checked ← if isSpace c then some false else if c == 120 || c == 88 then some true else none
  if s.hasByte (l.pos + 2) 93 && s.satisfies (l.pos + 3) isWhite then
    some ({ l with pos := l.pos + 3 }, checked)
  else none

end LineStart
end RichDoc.Markdown
