import RichDoc.Markdown.Block
import RichDoc.Markdown.Interrupt

/-! # Tables

A row has as many cells as the delimiter row has columns: cells beyond them are dropped and missing ones
are empty. A line without cells, or one that starts a block, ends the table. -/

namespace RichDoc.Markdown

variable (s : Source) (path : List Container)

/-- The cells from `i` on to the end of the line, and the offset after it. -/
def cellsFrom : Nat → Nat → List Cell × Nat
  | 0, i => ([], i)
  | fuel + 1, i =>
    let start := skipByte s 124 i
    let j := skipSpaces s start
    match lineEnd? s j with
    | some next => ([], next)
    | none =>
      let line := lineTokens s path .row j
      let (cells, next) := cellsFrom fuel line.next
      (⟨⟨start, line.next⟩, line.tokens⟩ :: cells, next)

/-- The row at `i`, with `columns` cells; none if the line has no cell. -/
def row? (columns i : Nat) : Option (Row × Nat) :=
  let (cells, next) := cellsFrom s path (s.size + 1 - i) i
  if cells.isEmpty then none
  else
    let missing := List.replicate (columns - cells.length) ⟨⟨next, next⟩, []⟩
    some (⟨⟨i, next⟩, cells.take columns ++ missing⟩, next)

/-- The rows from `i` on, and the offset after the last one. -/
def rowsFrom (columns : Nat) : Nat → Nat → List Row × Nat
  | 0, i => ([], i)
  | fuel + 1, i =>
    let (l, inside) := enterLine s path i
    let l := l.allSpace
    if !inside || startsBlock s true true l.pos then ([], i)
    else match row? s path columns l.pos with
      | none => ([], i)
      | some (row, next) =>
        let (rows, stop) := rowsFrom columns fuel next
        (row :: rows, stop)

/-- The table with its head at `start` and its body from `body` on. -/
def table (alignments : List Alignment) (start body : Nat) : LeafEnd :=
  let columns := alignments.length
  let (headCells, headNext) := cellsFrom s path (s.size + 1 - start) start
  let missing := List.replicate (columns - headCells.length) ⟨⟨headNext, headNext⟩, []⟩
  let head : Row := ⟨⟨start, headNext⟩, headCells.take columns ++ missing⟩
  let (rows, stop) := rowsFrom s path columns (s.size + 1 - body) body
  ⟨⟨start, stop⟩, .table alignments (head :: rows), stop⟩

end RichDoc.Markdown
