import RichDoc.Markdown.Emphasis
import RichDoc.Markdown.HtmlScan
import RichDoc.Markdown.Token

/-! # Code, raw HTML and links

The tokens of a block of text are read from left to right with a stack of open brackets
(`resolveFrom`). Code spans and raw HTML bind tighter than brackets, brackets tighter than emphasis. A
link holds no link, so a link disables the brackets outside it. -/

namespace RichDoc.Markdown

/-- What the tokens of a block of text depend on: the source cut at the end of the block, the containers
around it, whether it is a table cell, and the definitions of the document. -/
structure TextBlock where
  source : Source
  path : List Container
  inTable : Bool
  definition? : String → Option (String × String)

/-- What an open bracket may come to be. -/
inductive BracketKind where
  | link | image | disabled
deriving DecidableEq, Repr

/-- An open bracket and the pieces read before it, last one first. -/
structure Bracket where
  kind : BracketKind
  start : Nat
  stop : Nat
  before : List Piece

/-- The tokens from offset `j` on. -/
def skipTokens (j : Nat) (ts : List Token) : List Token :=
  match ts.dropWhile (·.stop ≤ j) with
  | [] => []
  | t :: r => { t with start := max t.start j } :: r

/-- The next run of `n` backticks and what comes after it. -/
def closingTicks? (n : Nat) : List Token → Option (Token × List Token)
  | [] => none
  | t :: r =>
    match t.body with
    | .ticks m _ => if m = n then some (t, r) else closingTicks? n r
    | _ => closingTicks? n r

/-- The closing bracket of a reference that names nothing does not end a reference of its own. -/
def withoutReference (stop : Nat) : List Token → List Token
  | [] => []
  | t :: r =>
    if t.stop < stop then t :: withoutReference stop r else { t with body := .close false } :: r

namespace TextBlock
variable (b : TextBlock)

/-- The text between two offsets as a piece. -/
def textPiece (i j : Nat) : Piece := .inline (.text ⟨i, j⟩ (b.source.slice i j))

/-- The characters of a code span from `i` to `j`: a line ending is a blank, and so is what the next line
owes to the containers; in a table an escaped bar is a bar. -/
def codeChars (stop : Nat) : Nat → Nat → Nat → String → String
  | 0, mark, _, out => out ++ b.source.slice mark stop
  | fuel + 1, mark, i, out =>
    if stop ≤ i then out ++ b.source.slice mark stop
    else if b.source.satisfies i Source.isLineEnd then
      let j := skipContainers (b.source.upTo stop) b.path (i + 1)
      codeChars stop fuel j j (out ++ b.source.slice mark i ++ " ")
    else if b.inTable && b.source.hasByte i 92 && b.source.hasByte (i + 1) 124 then
      codeChars stop fuel (i + 1) (i + 2) (out ++ b.source.slice mark i)
    else codeChars stop fuel mark (i + 1) out

/-- The content of a code span, less one blank at each end if there is one at both and some other
character between. -/
def codeText (i j : Nat) : String :=
  let cs := (b.codeChars j (j - i + 1) i i "").toList
  if cs.head? == some ' ' && cs.getLast? == some ' ' && cs.any (· != ' ') then
    String.ofList (cs.drop 1).dropLast
  else String.ofList cs

/-- After blanks and at most one line ending. -/
def linkSpace (i : Nat) : Nat :=
  let s := b.source
  let i := skipSpaces s i
  match lineEnd? s i with
  | some j => skipSpaces s (skipContainers s b.path j)
  | none => i

/-- Where the text of the line after the line ending before `i` starts. -/
def textAfter (ts : List Token) (i : Nat) : Option Nat :=
  match ts.dropWhile (·.stop ≤ i) with
  | [] => none
  | t :: _ => if i ≤ t.start then some t.start else none

/-- The destination and the title in parentheses at `i`, and where they end. -/
def inlineLink? (ts : List Token) (i : Nat) : Option (String × String × Nat) := do
  let s := b.source
  guard (s.hasByte i 40)
  let (url, j) ← destination? s linkNesting b.inTable (b.linkSpace (i + 1))
  let j := b.linkSpace j
  let (title, j) := match inlineTitle? s b.inTable (textAfter ts) j with
    | some (title, j) => (title, b.linkSpace j)
    | none => ("", j)
  if s.hasByte j 41 then some (url, title, j + 1) else none

/-- The key of the label at the bracket at `i`, and where it ends. -/
def labelAt? (i : Nat) : Option (String × Nat) :=
  if b.source.hasByte i 91 then
    label? b.source (fun j => some (skipContainers b.source b.path j)) b.inTable (i + 1)
  else none

/-- What comes after a closing bracket and says what the link refers to. -/
inductive Reference where
  /-- A label in brackets, which ends at `stop`. -/
  | full (key : String) (stop : Nat)
  /-- Empty brackets. -/
  | collapsed
  /-- Nothing. -/
  | shortcut

/-- The reference that the tokens after a closing bracket make. -/
def reference (ts : List Token) : Reference :=
  match ts with
  | [] => .shortcut
  | t :: _ =>
    if t.body = .text true then .shortcut
    else if b.source.hasByte t.start 91 && b.source.hasByte (t.start + 1) 93 then .collapsed
    else match b.labelAt? t.start with
      | some (key, stop) => .full key stop
      | none => .shortcut

/-- A link: where it ends, its destination and title, and the tokens after it. -/
structure LinkEnd where
  stop : Nat
  url : String
  title : String
  rest : List Token

/-- The link of which `t` closes the text, if there is one; else the tokens that follow `t`. -/
def closeBracket (opening : Bracket) (t : Token) (mayRefer : Bool) (ts : List Token) :
    LinkEnd ⊕ List Token :=
  match b.inlineLink? ts t.stop with
  | some (url, title, stop) => .inl ⟨stop, url, title, skipTokens stop ts⟩
  | none =>
    let named (key : String) (stop : Nat) (after rest : List Token) : LinkEnd ⊕ List Token :=
      match b.definition? key with
      | some (url, title) => .inl ⟨stop, url, title, after⟩
      | none => .inr rest
    let own (after : List Token) : LinkEnd ⊕ List Token :=
      if !mayRefer then .inr ts
      else match b.labelAt? (opening.stop - 1) with
        | some (key, stop) => if stop = t.stop then named key stop after ts else .inr ts
        | none => .inr ts
    match b.reference ts with
    | .full key stop => named key stop (skipTokens stop ts) (withoutReference stop ts)
    | .collapsed => own (ts.drop 2)
    | .shortcut => own ts

/-- Brackets outside a link open no link. -/
def disableLinks (bs : List Bracket) : List Bracket :=
  bs.map fun x => if x.kind = .link then { x with kind := .disabled } else x

/-- The pieces of the tokens `ts`, with the brackets `bs` and the pieces `out` read before, each last
one first. -/
def resolveFrom : Nat → List Token → List Bracket → List Piece → List Piece
  | 0, _, bs, out => out ++ bs.flatMap fun x => b.textPiece x.start x.stop :: x.before
  | _, [], bs, out => out ++ bs.flatMap fun x => b.textPiece x.start x.stop :: x.before
  | fuel + 1, t :: ts, bs, out =>
    let s := b.source
    let asText : List Piece := b.textPiece t.start t.stop :: out
    let inline (x : Inline) : List Piece := .inline x :: out
    match t.body with
    | .text _ => resolveFrom fuel ts bs asText
    | .literal v => resolveFrom fuel ts bs (inline (.text ⟨t.start, t.stop⟩ v))
    | .softBreak => resolveFrom fuel ts bs (inline (.softBreak ⟨t.start, t.stop⟩))
    | .hardBreak backslash => resolveFrom fuel ts bs (.hardBreak ⟨t.start, t.stop⟩ backslash :: out)
    | .task checked => resolveFrom fuel ts bs (inline (.task ⟨t.start, t.stop⟩ checked))
    | .marks mark count opens closes =>
      resolveFrom fuel ts bs (.marks t.start mark count opens closes :: out)
    | .ticks count escaped =>
      let n := if escaped then count - 1 else count
      match (if n = 0 then none else closingTicks? n ts) with
      | none => resolveFrom fuel ts bs asText
      | some (c, rest) =>
        let code := b.codeText t.stop c.start
        if escaped then
          resolveFrom fuel rest bs
            (.inline (.code ⟨t.start + 1, c.stop⟩ code) :: b.textPiece t.start (t.start + 1) :: out)
        else resolveFrom fuel rest bs (inline (.code ⟨t.start, c.stop⟩ code))
    | .angle =>
      match autolinkStop? s t.stop with
      | some k =>
        let url := s.slice t.stop k
        resolveFrom fuel (skipTokens (k + 1) ts) bs
          (inline (.wrap (.link url "") ⟨t.start, k + 1⟩ [.text ⟨t.stop, k⟩ url]))
      | none =>
        match inlineHtml? s b.path t.start with
        | some (html, stop) =>
          resolveFrom fuel (skipTokens stop ts) bs (inline (.html ⟨t.start, stop⟩ html))
        | none => resolveFrom fuel ts bs asText
    | .bracket => resolveFrom fuel ts (⟨.link, t.start, t.stop, out⟩ :: bs) []
    | .imageBracket => resolveFrom fuel ts (⟨.image, t.start, t.stop, out⟩ :: bs) []
    | .close mayRefer =>
      match bs with
      | [] => resolveFrom fuel ts bs asText
      | x :: bs =>
        let unlinked := asText ++ b.textPiece x.start x.stop :: x.before
        if x.kind = .disabled then resolveFrom fuel ts bs unlinked
        else match b.closeBracket x t mayRefer ts with
          | .inr rest => resolveFrom fuel rest bs unlinked
          | .inl link =>
            let tag : Tag := if x.kind = .image then .image link.url link.title else .link link.url link.title
            let node := Inline.wrap tag ⟨x.start, link.stop⟩ (resolveMarks out.reverse)
            resolveFrom fuel link.rest (if x.kind = .image then bs else disableLinks bs)
              (.inline node :: x.before)

/-- The inline content of the tokens of a block. -/
def inlines (ts : List Token) : List Inline :=
  resolveMarks (b.resolveFrom (ts.length + 1) ts [] []).reverse

end TextBlock
end RichDoc.Markdown
