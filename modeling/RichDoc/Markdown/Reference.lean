import RichDoc.Markdown.Scan
import RichDoc.Text.Class
import RichDoc.Text.Entity
import RichDoc.Text.Fold
import RichDoc.Text.Lines

/-! # References, escapes and link parts

Character references (`entity?`), backslash escapes (`unescape`), the destination, title and label of
a link, and autolinks. A label is compared by its `labelKey`. Inside a table a bar is escaped once
more, so `\\|` stands for a bar there. -/

namespace RichDoc.Markdown

variable (s : Source)

def isHexDigit (b : UInt8) : Bool := isDigit b || (65 ≤ b && b ≤ 70) || (97 ≤ b && b ≤ 102)

/-- The character reference at the ampersand at `i`: what it stands for and where it ends. -/
def entity? (i : Nat) : Option (String × Nat) :=
  let numeric (j stop n : Nat) : Option (String × Nat) :=
    if j < stop && s.hasByte stop 59 then some (String.singleton (Text.charOf n), stop + 1) else none
  if s.hasByte (i + 1) 35 then
    if s.hasByte (i + 2) 120 || s.hasByte (i + 2) 88 then
      let stop := min (s.skipWhile isHexDigit (i + 3)) (i + 9)
      numeric (i + 3) stop (Text.ofHex (s.slice (i + 3) stop).toList)
    else
      let stop := min (s.skipWhile isDigit (i + 2)) (i + 9)
      numeric (i + 2) stop (decimal s (i + 2) stop)
  else
    let j := s.skipWhile isAlnum (i + 1)
    if s.hasByte j 59 then (Text.entity? (s.slice (i + 1) j)).map fun v => (v, j + 1) else none

/-- The text from `i` on without its escapes, `out` and the text from `mark` to `i` going before. -/
def unescapeFrom (inTable : Bool) : Nat → Nat → Nat → String → String
  | 0, mark, i, out => out ++ s.slice mark i
  | fuel + 1, mark, i, out =>
    match s.byte? i with
    | none => out ++ s.slice mark i
    | some 92 =>
      if inTable && s.hasByte (i + 1) 92 && s.hasByte (i + 2) 124 then
        unescapeFrom inTable fuel (i + 2) (i + 3) (out ++ s.slice mark i)
      else if s.satisfies (i + 1) isPunctByte then
        unescapeFrom inTable fuel (i + 1) (i + 2) (out ++ s.slice mark i)
      else unescapeFrom inTable fuel mark (i + 1) out
    | some 38 =>
      match entity? s i with
      | some (v, j) => unescapeFrom inTable fuel j j (out ++ s.slice mark i ++ v)
      | none => unescapeFrom inTable fuel mark (i + 1) out
    | some 13 => unescapeFrom inTable fuel (i + 1) (i + 1) (out ++ s.slice mark i)
    | some _ => unescapeFrom inTable fuel mark (i + 1) out

/-- The text from `i` to `j` without its escapes and carriage returns. -/
def unescape (inTable : Bool) (i j : Nat) : String := unescapeFrom (s.upTo j) inTable (j - i + 1) i i ""

/-- Parentheses nest no deeper than this in the destination of a link in a line. -/
def linkNesting : Nat := 33

/-- Parentheses nest no deeper than this in the destination of a definition. -/
def definitionNesting : Nat := 2

/-- The end of a destination in angle brackets, at its closing bracket. -/
def pointyStop? (i : Nat) : Nat → Option Nat
  | 0 => none
  | fuel + 1 =>
    match s.byte? i with
    | none => none
    | some b =>
      if b == 10 || b == 13 || b == 60 then none
      else if b == 62 then some i
      else if b == 92 && s.satisfies (i + 1) isPunctByte then pointyStop? (i + 2) fuel
      else pointyStop? (i + 1) fuel

/-- The end of a destination without brackets, `depth` parentheses being open and no more than `limit` allowed. -/
def plainStop? (limit depth i : Nat) : Nat → Option Nat
  | 0 => none
  | fuel + 1 =>
    match s.byte? i with
    | none => if depth = 0 then some i else none
    | some b =>
      if b ≤ 32 then if depth = 0 then some i else none
      else if b == 40 then if limit ≤ depth then none else plainStop? limit (depth + 1) (i + 1) fuel
      else if b == 41 then if depth = 0 then some i else plainStop? limit (depth - 1) (i + 1) fuel
      else if b == 92 && s.satisfies (i + 1) isPunctByte then plainStop? limit depth (i + 2) fuel
      else plainStop? limit depth (i + 1) fuel

/-- The destination at `i`, with no more than `limit` parentheses one in the other: its text without escapes, and
where it ends. -/
def destination? (limit : Nat) (inTable : Bool) (i : Nat) : Option (String × Nat) :=
  if s.hasByte i 60 then
    (pointyStop? s (i + 1) (s.size + 1 - i)).map fun j => (unescape s inTable (i + 1) j, j + 1)
  else (plainStop? s limit 0 i (s.size + 1 - i)).map fun j => (unescape s inTable i j, j)

/-- The mark that ends a title opened by `b`. -/
def titleClose? (b : UInt8) : Option UInt8 :=
  if b == 39 || b == 34 then some b else if b == 40 then some 41 else none

/-- The rest of the title of an inline link; `textAfter` tells where the text of the next line is. -/
def inlineTitleFrom (inTable : Bool) (textAfter : Nat → Option Nat) (opening closing : UInt8) :
    Nat → Nat → Nat → String → Option (String × Nat)
  | 0, _, _, _ => none
  | fuel + 1, mark, i, out =>
    let go := inlineTitleFrom inTable textAfter opening closing fuel
    match s.byte? i with
    | none => none
    | some b =>
      if b == closing then some (out ++ s.slice mark i, i + 1)
      else if b == opening then none
      else
        let next? := if b == 10 || b == 13 then (textAfter (i + 1)).filter (i < ·) else none
        match next? with
        | some j => go j j (out ++ s.slice mark i ++ "\n")
        | none =>
          match (if b == 38 then entity? s i else none) with
          | some (v, j) => go j j (out ++ s.slice mark i ++ v)
          | none =>
            if inTable && b == 92 && s.hasByte (i + 1) 92 && s.hasByte (i + 2) 124 then
              go (i + 2) (i + 3) (out ++ s.slice mark i)
            else if b == 92 && s.satisfies (i + 1) isPunctByte then
              go (i + 1) (i + 2) (out ++ s.slice mark i)
            else go mark (i + 1) out

/-- The title of an inline link at `i`. -/
def inlineTitle? (inTable : Bool) (textAfter : Nat → Option Nat) (i : Nat) : Option (String × Nat) := do
  let b ← s.byte? i
  let closing ← titleClose? b
  inlineTitleFrom s inTable textAfter b closing (s.size + 1 - i) (i + 1) (i + 1) ""

/-- After a run of white space with at most one line ending, and whether it is more than a blank. -/
def labelSpace? (nextLine? : Nat → Option Nat) : Nat → Bool → Nat → Nat → Option (Nat × Nat)
  | 0, _, i, width => some (i, width)
  | fuel + 1, broken, i, width =>
    match s.byte? i with
    | none => some (i, width)
    | some b =>
      if b == 10 || b == 13 then
        if broken then none
        else do labelSpace? nextLine? fuel true (← nextLine? ((lineEnd? s i).getD i)) (width + 2)
      else if isWhite b then labelSpace? nextLine? fuel broken (i + 1) (width + if b == 32 then 1 else 2)
      else some (i, width)

/-- A label has fewer characters than this. -/
def maxLabel : Nat := 1000

/-- The rest of a label: `count` characters were read, none of them but white space if `blank`. -/
def labelFrom (nextLine? : Nat → Option Nat) (inTable : Bool) :
    Nat → Nat → Nat → String → Nat → Bool → Option (String × Nat)
  | 0, _, _, _, _, _ => none
  | fuel + 1, mark, i, out, count, blank =>
    let go := labelFrom nextLine? inTable fuel
    if maxLabel ≤ count then none else
    match s.byte? i with
    | none => none
    | some b =>
      if b == 91 then none
      else if b == 93 then if blank then none else some (out ++ s.slice mark i, i + 1)
      else if inTable && b == 92 && s.hasByte (i + 1) 124 then
        go (i + 1) (i + 2) (out ++ s.slice mark i) (count + 2) false
      else if b == 92 then go mark (i + 2) out (count + 2) false
      else if isWhite b then do
        let (j, width) ← labelSpace? s nextLine? (s.size + 1 - i) false i 0
        if 1 < width then go j j (out ++ s.slice mark i ++ " ") (count + (j - i)) blank
        else go mark j out (count + 1) blank
      else go mark (i + 1) out (if b.toNat / 64 == 2 then count else count + 1) false

/-- What a label is compared by: its text without white space around it and without case. -/
def labelKey (label : String) : String :=
  let blank (c : Char) : Bool := c.toNat < 0x80 && isWhite c.toNat.toUInt8
  Text.folded (String.ofList (Text.dropEndWhile blank (label.toList.dropWhile blank)))

/-- The key of the label whose opening bracket stands before `i`, and where it ends. -/
def label? (nextLine? : Nat → Option Nat) (inTable : Bool) (i : Nat) : Option (String × Nat) :=
  (labelFrom s nextLine? inTable (s.size + 1 - i) i i "" 0 true).map fun p => (labelKey p.1, p.2)

/-- The end of an address with a scheme of 2 to 32 characters, at its closing bracket. -/
def uriStop? (i : Nat) : Option Nat :=
  if s.satisfies i isLetter then
    let j := s.skipWhile (fun b => isAlnum b || b == 46 || b == 45 || b == 43) (i + 1)
    if s.hasByte j 58 && 2 ≤ j - i && j - i ≤ 32 then
      let k := s.skipWhile (fun b => 32 < b && b != 62 && b != 60) (j + 1)
      if s.hasByte k 62 then some k else none
    else none
  else none

/-- No letter or digit, but allowed in the local part of a mail address. -/
def isLocalMark (b : UInt8) : Bool :=
  b == 46 || b == 33 || (35 ≤ b && b ≤ 39) || b == 42 || b == 43 || b == 47 || b == 61 || b == 63 ||
    (94 ≤ b && b ≤ 96) || (123 ≤ b && b ≤ 126) || b == 45

/-- The end of the labels of a host name; each has 1 to 63 characters and no hyphen at its ends. -/
def hostStop? (i : Nat) : Nat → Option Nat
  | 0 => none
  | fuel + 1 =>
    let j := s.skipWhile (fun b => isAlnum b || b == 45) i
    if j == i || 63 < j - i || s.hasByte i 45 || s.hasByte (j - 1) 45 then none
    else if s.hasByte j 46 then hostStop? (j + 1) fuel
    else some j

/-- The end of a mail address, at its closing bracket. -/
def mailStop? (i : Nat) : Option Nat :=
  let j := s.skipWhile (fun b => isAlnum b || isLocalMark b) i
  if i < j && s.hasByte j 64 then
    match hostStop? s (j + 1) (s.size + 1 - j) with
    | some k => if s.hasByte k 62 then some k else none
    | none => none
  else none

/-- The end of an autolink whose opening bracket stands before `i`, at its closing bracket. -/
def autolinkStop? (i : Nat) : Option Nat := (uriStop? s i).or (mailStop? s i)

end RichDoc.Markdown
