import RichDoc.Markdown.Inline

/-! # Emphasis

Runs of emphasis marks are matched by a stack of openers (`Emphasis`). A run that may close takes the
nearest opener it matches; what was opened in between is text. Two marks on each side make strong
emphasis, inside of single emphasis where there are three. -/

namespace RichDoc.Markdown

/-- Inline content of which the emphasis is still to be found. -/
inductive Piece where
  | inline (x : Inline)
  | hardBreak (span : Span) (backslash : Bool)
  | marks (start : Nat) (mark : UInt8) (count : Nat) (canOpen canClose : Bool)

/-- A run that may still be closed, with `count` of its `runLength` marks left and the content read
after it, last one first. -/
structure Opener where
  mark : UInt8
  start : Nat
  count : Nat
  runLength : Nat
  both : Bool
  content : List Inline

/-- Content before all openers, last one first, and the openers, innermost first. A run of tildes takes
no opener among the `tildeFloor` outermost ones. -/
structure Emphasis where
  base : List Inline
  openers : List Opener
  tildeFloor : Nat

/-- Marks that stand for themselves. -/
def markText (mark : UInt8) (i n : Nat) : Inline :=
  .text ⟨i, i + n⟩ (String.ofList (List.replicate n (Char.ofNat mark.toNat)))

/-- `children` between `n` marks on each side that end at `i` and start at `j`. -/
def wrapMarks (mark : UInt8) (i j : Nat) : Nat → List Inline → List Inline
  | 0, children => children
  | 1, children =>
    [.wrap (if mark == 126 then .strikethrough else .emphasis) ⟨i - 1, j + 1⟩ children]
  | n + 2, children =>
    wrapMarks mark (i - 2) (j + 2) n
      [.wrap (if mark == 126 then .strikethrough else .strong) ⟨i - 2, j + 2⟩ children]

namespace Opener

/-- A run of `runLength` marks that may close, and may open too if `both`, closes `o`. Runs of which one
may do both do not match if their lengths add up to a multiple of three, unless each is one. Runs of
tildes match only if they have one length. -/
def isClosedBy (o : Opener) (mark : UInt8) (runLength : Nat) (both : Bool) : Bool :=
  o.mark == mark && (mark != 126 || o.runLength == runLength) &&
    ((!both && !o.both) || (runLength + o.runLength) % 3 != 0 || runLength % 3 == 0)

/-- The opener as text, before the content read after it; last one first. -/
def asText (o : Opener) : List Inline := o.content ++ [markText o.mark o.start o.count]

/-- The innermost opener but for the `floor` outermost ones that `p` holds of: those inside it, itself,
and those outside it. -/
def find? (p : Opener → Bool) (floor : Nat) : List Opener → Option (List Opener × Opener × List Opener)
  | [] => none
  | o :: r =>
    if r.length < floor then none
    else if p o then some ([], o, r)
    else (find? p floor r).map fun (inside, o', r') => (o :: inside, o', r')

end Opener

namespace Emphasis

/-- Adds content. -/
def push (e : Emphasis) (xs : List Inline) : Emphasis :=
  match e.openers with
  | [] => { e with base := xs ++ e.base }
  | o :: r => { e with openers := { o with content := xs ++ o.content } :: r }

/-- Closes openers with the `count` marks left at `start` of a run; what is left when no opener matches
any more. -/
def close (mark : UInt8) (runLength : Nat) (both : Bool) :
    Nat → Emphasis → Nat → Nat → Emphasis × Nat × Nat
  | 0, e, start, count => (e, start, count)
  | fuel + 1, e, start, count =>
    if count = 0 then (e, start, 0) else
    let floor := if mark == 126 then e.tildeFloor else 0
    match Opener.find? (·.isClosedBy mark runLength both) floor e.openers with
    | none =>
      ({ e with tildeFloor := if mark == 126 then e.openers.length else e.tildeFloor }, start, count)
    | some (inside, o, outside) =>
      let n := min count o.count
      let content := (inside.flatMap Opener.asText ++ o.content).reverse
      let node := wrapMarks mark (o.start + o.count) start n content
      let e := { e with openers := outside, tildeFloor := min e.tildeFloor outside.length }
      let e := if n < o.count then
          { e with openers := { o with count := o.count - n, content := node } :: outside }
        else e.push node
      close mark runLength both fuel e (start + n) (count - n)

/-- Takes one piece. -/
def step (e : Emphasis) : Piece → Emphasis
  | .inline x => e.push [x]
  | .hardBreak r _ => e.push [.hardBreak r]
  | .marks start mark count canOpen canClose =>
    let both := canOpen && canClose
    let (e, i, n) := if canClose then close mark count both count e start count else (e, start, count)
    if n = 0 then e
    else if canOpen then { e with openers := ⟨mark, i, n, count, both, []⟩ :: e.openers }
    else e.push [markText mark i n]

/-- All content in order, what was not closed being text. -/
def finish (e : Emphasis) : List Inline := (e.openers.flatMap Opener.asText ++ e.base).reverse

end Emphasis

def Piece.isMarks : Piece → Bool
  | marks .. => true
  | _ => false

/-- A hard break at the end of pieces with marks among them breaks nothing: its backslash is text, its
blanks are nothing. -/
def settleLastBreak (ps : List Piece) : List Piece :=
  if ps.any Piece.isMarks then
    match ps.reverse with
    | .hardBreak r true :: before => (.inline (.text r "\\") :: before).reverse
    | .hardBreak _ false :: before => before.reverse
    | _ => ps
  else ps

/-- The content of a list of pieces. -/
def resolveMarks (ps : List Piece) : List Inline :=
  ((settleLastBreak ps).foldl Emphasis.step ⟨[], [], 0⟩).finish

end RichDoc.Markdown
