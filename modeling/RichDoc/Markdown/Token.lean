import RichDoc.Markdown.Containers
import RichDoc.Markdown.Event
import RichDoc.Markdown.Reference

/-! # The tokens of a line

A line of text is cut into tokens before it is known which marks in it count (`lineTokens`). What ends
a line is a break, or the delimiter row that makes the line the head of a table. -/

namespace RichDoc.Markdown

/-- What a token may come to be. -/
inductive TokenBody where
  /-- Text as it stands; `escaped` if a backslash stood before it. -/
  | text (escaped : Bool)
  /-- Text that is written in another way. -/
  | literal (s : String)
  /-- A run of backticks; `escaped` if a backslash stood before it. -/
  | ticks (count : Nat) (escaped : Bool)
  /-- A run of emphasis marks. -/
  | marks (mark : UInt8) (count : Nat) (canOpen canClose : Bool)
  | angle
  | bracket
  | imageBracket
  /-- A closing bracket; not `mayRefer` if the label it ends is known to name nothing. -/
  | close (mayRefer : Bool)
  | softBreak
  | hardBreak (backslash : Bool)
  | task (checked : Bool)
deriving DecidableEq, Repr

/-- A stretch of a line. -/
structure Token where
  start : Nat
  stop : Nat
  body : TokenBody
deriving DecidableEq, Repr

/-- Whether a bar ends the line, makes it a candidate for a table head, or is text. -/
inductive TableMode where
  | off | head | row
deriving DecidableEq, Repr

/-- What follows a line. -/
inductive LineStop where
  | none
  | lineBreak (t : Token)
  | table (alignments : List Alignment)
deriving Repr

/-- The tokens of a line, the offset after it, and what follows. -/
structure Line where
  tokens : List Token
  next : Nat
  stop : LineStop

section
variable (s : Source)

/-- The code point written by the bytes at `i`. -/
def charAt? (i : Nat) : Option Char := do
  let b ← s.byte? i
  let next (k : Nat) : Nat := ((s.byte? (i + k)).getD 0).toNat % 64
  let b := b.toNat
  some <| Char.ofNat <|
    if b < 0x80 then b
    else if b < 0xE0 then b % 32 * 64 + next 1
    else if b < 0xF0 then (b % 16 * 64 + next 1) * 64 + next 2
    else ((b % 8 * 64 + next 1) * 64 + next 2) * 64 + next 3

/-- The character before `i`. -/
def charBefore? (i : Nat) : Option Char :=
  let j := s.skipBack (fun b => b.toNat / 64 == 2) 0 i
  if j = 0 then none else charAt? s (j - 1)

/-- A bar that no backslash escapes stands before `i`, on the line that starts at `start`. -/
def barBefore (start i : Nat) : Bool :=
  start < i && s.hasByte (i - 1) 124 && !(start + 1 < i && s.hasByte (i - 2) 92)

/-- The run of `n` marks `c` at `i` may open emphasis: it stands before a word. -/
def canOpen (mode : TableMode) (start i : Nat) (c : UInt8) (n : Nat) : Bool :=
  match charAt? s (i + n) with
  | none => false
  | some after =>
    if Text.isBlank after then false
    else if i = start then true
    else if mode = .row && barBefore s start i then true
    else if mode = .row && after == '|' then false
    else if c == 42 && !Text.isPunct after then true
    else if c == 126 && 1 < n then true
    else match charBefore? s i with
      | none => true
      | some before =>
        if c == 126 && before == '~' && !Text.isPunct after then true
        else Text.isBlank before || Text.isPunct before

/-- The run of `n` marks `c` at `i` may close emphasis: it stands after a word. -/
def canClose (mode : TableMode) (start i : Nat) (c : UInt8) (n : Nat) : Bool :=
  if i = start then false
  else match charBefore? s i with
    | none => false
    | some before =>
      if Text.isBlank before then false
      else match charAt? s (i + n) with
        | none => true
        | some after =>
          if mode = .row && barBefore s start i then false
          else if mode = .row && after == '|' then true
          else if (c == 42 || (c == 126 && 1 < n)) && !Text.isPunct before then true
          else if c == 126 && before == '~' then true
          else Text.isBlank after || Text.isPunct after

/-- The columns of a delimiter row: those read, whether the one being read has begun and has a dash,
and whether there was a bar and a dash at all. -/
structure DelimiterRow where
  columns : List Alignment
  current : Alignment
  fresh : Bool
  dash : Bool
  anyBar : Bool
  anyDash : Bool

/-- The rest of a delimiter row. -/
def delimiterRowFrom? (d : DelimiterRow) (i : Nat) : Option (List Alignment × Nat) :=
  let done (j : Nat) : Option (List Alignment × Nat) :=
    if d.anyBar && d.anyDash then some (if d.fresh then d.columns else d.columns ++ [d.current], j)
    else none
  if i < s.size then
    match s.byte? i with
    | none => none
    | some b =>
      if b == 10 || b == 13 then done ((lineEnd? s i).getD i)
      else if b == 32 then delimiterRowFrom? d (i + 1)
      else if b == 58 then
        let current := match d.fresh, d.current with
          | true, .none => .left
          | false, .left => .center
          | false, .none => .right
          | _, a => a
        delimiterRowFrom? { d with current, fresh := false } (i + 1)
      else if b == 45 then
        delimiterRowFrom? { d with fresh := false, dash := true, anyDash := true } (i + 1)
      else if b == 124 then
        if d.dash then
          delimiterRowFrom? ⟨d.columns ++ [d.current], .none, true, false, true, d.anyDash⟩ (i + 1)
        else none
      else none
  else done i
termination_by s.size - i

/-- The alignments that a delimiter row at `i` gives. -/
def delimiterRow? (i : Nat) : Option (List Alignment × Nat) :=
  let (l, n) := (LineStart.ofPos s i).spaceUpTo 4
  if 3 < n || s.size ≤ l.pos then none
  else
    let bar := s.hasByte l.pos 124
    delimiterRowFrom? s ⟨[], .none, true, false, bar, false⟩ (skipByte s 124 l.pos)

/-- How many cells a line at `start` has, with `bars` bars, the last of them at `last`. -/
def headColumns (start bars last : Nat) : Nat :=
  let inner := if s.hasByte (skipSpaces s start) 124 then bars - 1 else bars
  if (blankLine? s (last + 1)).isSome then inner else inner + 1

/-- The delimiter row on the line at `i`, if it makes a line with `columns` cells a table head. -/
def tableBelow? (path : List Container) (i columns : Nat) : Option (List Alignment × Nat) :=
  let (l, inside) := enterLine s path i
  if inside then (delimiterRow? s l.pos).filter fun p => p.1.length == columns else none

/-- A text token, if there is any text. -/
def textToken (i j : Nat) (escaped : Bool) : List Token := if i < j then [⟨i, j, .text escaped⟩] else []

/-- The tokens of a line from `i` on, text from `begin` on being without a token; `bars` bars were read,
the last at `lastBar`; `out` holds the tokens so far, last one first. -/
def lineFrom (path : List Container) (mode : TableMode) (start : Nat) :
    Nat → Nat → Nat → Bool → Nat → Nat → List Token → Line
  | 0, i, _, _, _, _, out => ⟨out.reverse, i, .none⟩
  | fuel + 1, i, begin, escaped, bars, lastBar, out =>
    let flushed (j : Nat) : List Token := textToken begin j escaped ++ out
    let finish : Line :=
      ⟨(flushed (s.skipBack isSpace begin i)).reverse, i, .none⟩
    let special (j : Nat) (body : TokenBody) : Line :=
      lineFrom path mode start fuel j j false bars lastBar (⟨i, j, body⟩ :: flushed i)
    let plain (j : Nat) : Line := lineFrom path mode start fuel j begin escaped bars lastBar out
    match s.byte? i with
    | none => finish
    | some b =>
      if b == 10 || b == 13 then
        let next := (lineEnd? s i).getD i
        let head? := if mode = .head && 0 < bars then
          tableBelow? s path next (headColumns s start bars lastBar) else none
        if mode = .row then finish
        else match head? with
          | some (alignments, j) => ⟨[], j, .table alignments⟩
          | none =>
            if (i - s.skipBack (· == 92) 0 i) % 2 == 1 && next < s.size then
              ⟨(flushed (i - 1)).reverse, next, .lineBreak ⟨i - 1, next, .hardBreak true⟩⟩
            else
              let j := s.skipBack isSpace 0 i
              if 2 ≤ i - j then ⟨(flushed j).reverse, next, .lineBreak ⟨j, next, .hardBreak false⟩⟩
              else ⟨(flushed j).reverse, next, .lineBreak ⟨i, next, .softBreak⟩⟩
      else if b == 92 then
        if s.satisfies (i + 1) isPunctByte then
          if s.hasByte (i + 1) 96 then
            let count := runLength s 96 (i + 1)
            let j := i + 1 + count
            lineFrom path mode start fuel j j false bars lastBar (⟨i + 1, j, .ticks count true⟩ :: flushed i)
          else if mode = .row && s.hasByte (i + 1) 92 && s.hasByte (i + 2) 124 then
            lineFrom path mode start fuel (i + 3) (i + 2) true bars lastBar (flushed i)
          else lineFrom path mode start fuel (i + 2) (i + 1) true bars lastBar (flushed i)
        else plain (i + 1)
      else if b == 42 || b == 95 || b == 126 then
        let count := runLength s b i
        let opens := canOpen s mode start i b count
        let closes := canClose s mode start i b count
        if (opens || closes) && (b != 126 || count ≤ 2) then special (i + count) (.marks b count opens closes)
        else plain (i + count)
      else if b == 96 then
        let count := runLength s 96 i
        special (i + count) (.ticks count false)
      else if b == 60 && !s.hasByte (i + 1) 92 then special (i + 1) .angle
      else if b == 33 && s.hasByte (i + 1) 91 then special (i + 2) .imageBracket
      else if b == 91 then special (i + 1) .bracket
      else if b == 93 then special (i + 1) (.close true)
      else if b == 38 then
        match entity? s i with
        | some (v, j) => special j (.literal v)
        | none => plain (i + 1)
      else if b == 124 then
        if 0 < i && s.hasByte (i - 1) 92 then plain (i + 1)
        else if mode = .row then finish
        else lineFrom path mode start fuel (i + 1) begin escaped (bars + 1) i out
      else plain (i + 1)

/-- The line of text at `start`. -/
def lineTokens (path : List Container) (mode : TableMode) (start : Nat) : Line :=
  lineFrom s path mode start (s.size + 1 - start) start start false 0 start []

end
end RichDoc.Markdown
