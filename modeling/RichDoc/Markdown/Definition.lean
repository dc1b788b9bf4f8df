import RichDoc.Markdown.Interrupt

/-! # Link definitions

`definition?` reads a definition `[label]: destination "title"`. It may run over lines as long as these
could go on with a paragraph. -/

namespace RichDoc.Markdown

variable (s : Source) (path : List Container)

/-- Where the label goes on after the line ending before `i`. -/
def labelLine? (i : Nat) : Option Nat :=
  let (l, inside) := enterLine s path i
  let (l, deep) := l.space 4
  if deep then some l.pos
  else if interrupts s path inside l.pos || (inside && (underline? s l.pos).isSome) then none
  else some l.pos

/-- Where a definition goes on after the line ending before `i`. -/
def definitionLine? (i : Nat) : Option LineStart :=
  let (l, inside) := enterLine s path i
  let (l, deep) := l.space 4
  if !deep && (interrupts s path inside l.pos || (underline? s l.pos).isSome) then none else some l

/-- After white space with at most one line ending, and the number of line endings. -/
def definitionSpace? (i : Nat) : Option (Nat × Nat) :=
  let i := skipSpaces s i
  match lineEnd? s i with
  | none => some (i, 0)
  | some j => do
    let l ← definitionLine? s path j
    let k := skipSpaces s l.pos
    if (lineEnd? s k).isSome then none else some (k, 1)

/-- The rest of a title up to `closing`, `out` being the lines before, and `mark` the start of the
line. -/
def titleFrom (closing : UInt8) : Nat → Nat → Nat → String → Option (String × Nat)
  | 0, _, _, _ => none
  | fuel + 1, mark, i, out =>
    match s.byte? i with
    | none => none
    | some b =>
      if b == 40 && closing == 41 then none
      else if b == 10 || b == 13 then do
        let l ← definitionLine? s path ((lineEnd? s i).getD i)
        let l := l.allSpace
        if (blankLine? s l.pos).isSome then none
        else titleFrom closing fuel l.pos l.pos (out ++ unescape s false mark i ++ "\n")
      else if b == 92 then titleFrom closing fuel mark (if s.satisfies (i + 1) (!Source.isLineEnd ·) then i + 2 else i + 1) out
      else if b == closing then some (out ++ unescape s false mark i, i + 1)
      else titleFrom closing fuel mark (i + 1) out

/-- A link definition at `i`: the key of its label, its destination and title, and where it ends. -/
def definition? (i : Nat) : Option (String × (String × String) × Nat) := do
  guard (s.hasByte i 91)
  let (key, j) ← label? s (labelLine? s path) false (i + 1)
  guard (s.hasByte j 58)
  let (j, _) ← definitionSpace? s path (j + 1)
  let (url, stop) ← destination? s definitionNesting false j
  guard (j < stop)
  let untitled : String × (String × String) × Nat := (key, (url, ""), stop)
  match definitionSpace? s path stop with
  | none => some untitled
  | some (k, lines) =>
    if k = stop && lines = 0 then none
    else
      let titled : Option (String × (String × String) × Nat) := do
        let closing ← titleClose? (← s.byte? k)
        let (title, stop) ← titleFrom s path closing (s.size + 1 - k) (k + 1) (k + 1) ""
        guard (blankLine? s stop).isSome
        some (key, (url, title), stop)
      titled.or (if 0 < lines then some untitled else none)

end RichDoc.Markdown
