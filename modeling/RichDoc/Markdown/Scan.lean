import RichDoc.Source

/-! # Line scans

What a line can start with: a blank line, a thematic break, a heading mark, a setext underline, a code
fence, a list marker. Each scan takes the offset it starts at and gives the offset after what it
found. The end of the source counts as the end of a line. -/

namespace RichDoc.Markdown

/-- White space within a line. -/
def isSpace (b : UInt8) : Bool := b == 32 || b == 9 || b == 11 || b == 12

/-- White space, line endings included. -/
def isWhite (b : UInt8) : Bool := isSpace b || b == 10 || b == 13

def isDigit (b : UInt8) : Bool := 48 ≤ b && b ≤ 57

def isLetter (b : UInt8) : Bool := (65 ≤ b && b ≤ 90) || (97 ≤ b && b ≤ 122)

def isAlnum (b : UInt8) : Bool := isLetter b || isDigit b

/-- ASCII punctuation. -/
def isPunctByte (b : UInt8) : Bool :=
  (33 ≤ b && b ≤ 47) || (58 ≤ b && b ≤ 64) || (91 ≤ b && b ≤ 96) || (123 ≤ b && b ≤ 126)

/-- The lower-case form of an ASCII letter. -/
def lowerByte (b : UInt8) : UInt8 := if 65 ≤ b && b ≤ 90 then b + 32 else b

variable (s : Source)

def skipSpaces (i : Nat) : Nat := s.skipWhile isSpace i

/-- After a line ending at `i`. -/
def lineEnd? (i : Nat) : Option Nat :=
  match s.byte? i with
  | none => some i
  | some 10 => some (i + 1)
  | some 13 => some (if s.hasByte (i + 1) 10 then i + 2 else i + 1)
  | _ => none

/-- After a line with nothing but white space from `i` on. -/
def blankLine? (i : Nat) : Option Nat := lineEnd? s (skipSpaces s i)

/-- After the next line feed. -/
def nextLine (i : Nat) : Nat := min s.size (s.skipWhile (· != 10) i + 1)

/-- Length of the run of `b` at `i`. -/
def runLength (b : UInt8) (i : Nat) : Nat := s.skipWhile (· == b) i - i

/-- One byte further if it is `b`. -/
def skipByte (b : UInt8) (i : Nat) : Nat := if s.hasByte i b then i + 1 else i

/-- The bytes of `word` stand at `i`. -/
def startsWith (word : List UInt8) (i : Nat) : Bool :=
  match word with
  | [] => true
  | b :: r => s.hasByte i b && startsWith r (i + 1)

/-- The bytes of `word`, in lower case, stand at `i` in either case. -/
def startsWithCased (word : List UInt8) (i : Nat) : Bool :=
  match word with
  | [] => true
  | b :: r => s.satisfies i (lowerByte · == b) && startsWithCased r (i + 1)

/-- After a rest of a line with only `c` and blanks in it, together with the number of `c`. -/
def ruleRest? (c : UInt8) (n i : Nat) : Option (Nat × Nat) :=
  if i < s.size then
    match s.byte? i with
    | none => none
    | some b =>
      if b == 10 || b == 13 then some (n, (lineEnd? s i).getD i)
      else if b == c then ruleRest? c (n + 1) (i + 1)
      else if b == 32 || b == 9 then ruleRest? c n (i + 1)
      else none
  else some (n, i)
termination_by s.size - i

/-- After a thematic break: three or more of one mark, blanks between them. -/
def thematicBreak? (i : Nat) : Option Nat :=
  match s.byte? i with
  | some c =>
    if c == 42 || c == 45 || c == 95 then
      match ruleRest? s c 0 i with
      | some (n, j) => if 3 ≤ n then some j else none
      | none => none
    else none
  | none => none

/-- The level of the heading that starts at `i`. -/
def headingLevel? (i : Nat) : Option Nat :=
  let n := runLength s 35 i
  let closed := match s.byte? (i + n) with
    | none => true
    | some b => isWhite b
  if closed && 1 ≤ n && n ≤ 6 then some n else none

/-- The level of a setext underline and where its line ends. -/
def underline? (i : Nat) : Option (Nat × Nat) :=
  match s.byte? i with
  | some c =>
    if c == 61 || c == 45 then
      (blankLine? s (s.skipWhile (· == c) i)).map fun j => (if c == 61 then 1 else 2, j)
    else none
  | none => none

/-- The length and the mark of a code fence; the line of a fence of backticks has no other backtick. -/
def fence? (i : Nat) : Option (Nat × UInt8) :=
  match s.byte? i with
  | some c =>
    if c == 96 || c == 126 then
      let n := runLength s c i
      if n < 3 then none
      else if c == 96 && s.hasByte (s.skipWhile (fun b => b != 96 && b != 10) (i + n)) 96 then none
      else some (n, c)
    else none
  | none => none

/-- Where a fence that ends a block of `n` marks `c` stops; the end of the source is one too. -/
def closingFence? (c : UInt8) (n i : Nat) : Option Nat :=
  if s.size ≤ i then some i
  else if runLength s c i < n then none
  else
    let j := s.skipWhile (· == 32) (s.skipWhile (· == c) i)
    (lineEnd? s j).map fun _ => j

/-- The number that the digits from `i` to `j` stand for. -/
def decimal (i j : Nat) : Nat :=
  if i < j then
    match s.byte? (j - 1) with
    | some b => 10 * decimal i (j - 1) + (b.toNat - 48)
    | none => 0
  else 0
termination_by j - i

/-- A list marker at `i`: where it ends, its mark and its number. -/
def listMarker? (i : Nat) : Option (Nat × UInt8 × Nat) := do
  let c ← s.byte? i
  let (j, mark, n) ←
    if c == 45 || c == 43 || c == 42 then some (i + 1, c, 0)
    else if isDigit c then
      let j := min (s.skipWhile isDigit i) (i + 9)
      match s.byte? j with
      | some d => if d == 46 || d == 41 then some (j + 1, d, decimal s i j) else none
      | none => none
    else none
  if s.hasByte j 32 || s.hasByte j 9 || (lineEnd? s j).isSome then some (j, mark, n) else none

end RichDoc.Markdown
