import RichDoc.Markdown.Definition
import RichDoc.Markdown.Paragraph
import RichDoc.Markdown.Verbatim
import RichDoc.StringMap

/-! # Reading blocks

A `Reader` holds the open containers and what they have gathered. Each step reads from the start of a line:
containers that the line does not go on with are closed, new ones opened, and what is left is a blank
line or the start of a leaf (`Reader.step`). `Document.ofSource` reads a whole text. -/

namespace RichDoc.Markdown

/-- What is open: a block quote, a list with its mark and first number, or an item. -/
inductive OpenKind where
  | quote
  | list (mark : UInt8) (number : Nat) (tight : Bool)
  | item (indent : Nat)

/-- An open container with its children so far, last one first. -/
structure OpenBlock where
  kind : OpenKind
  start : Nat
  children : List Block

/-- What the open container asks of a line. -/
def OpenKind.container : OpenKind → Container
  | quote => .quote
  | list .. => .list
  | item indent => .item indent

/-- The number is that of an ordered list. -/
def orderedFirst (mark : UInt8) (number : Nat) : Option Nat :=
  if mark == 46 || mark == 41 then some number else none

/-- The block that ends at `stop`. -/
def OpenBlock.close (o : OpenBlock) (stop : Nat) : Block :=
  match o.kind with
  | .quote => .quote ⟨o.start, stop⟩ o.children.reverse
  | .list mark number tight => .list ⟨o.start, stop⟩ tight (orderedFirst mark number) o.children.reverse
  | .item indent => .item ⟨o.start, stop⟩ indent o.children.reverse

/-- The state of reading: blocks done outside all open containers (last one first), the open containers
(innermost first), whether the last line was blank, whether the item that was just opened has no text on its
first line, a task marker that waits for a paragraph, and the definitions so far. -/
structure Reader where
  done : List Block
  stack : List OpenBlock
  lastBlank : Bool
  begun : Bool
  task : List Token
  definitions : StringMap (String × String)

namespace Reader

/-- Nothing read yet. -/
def init : Reader := ⟨[], [], false, false, [], ∅⟩

/-- The open containers, outermost first. -/
def path (r : Reader) : List Container := r.stack.reverse.map (·.kind.container)

/-- Adds a block to the innermost container. -/
def add (r : Reader) (b : Block) : Reader :=
  match r.stack with
  | [] => { r with done := b :: r.done }
  | o :: os => { r with stack := { o with children := b :: o.children } :: os }

/-- Adds a leaf. -/
def addLeaf (r : Reader) (l : LeafEnd) : Reader := r.add (.leaf l.span l.content)

def push (r : Reader) (kind : OpenKind) (start : Nat) : Reader :=
  { r with stack := ⟨kind, start, []⟩ :: r.stack }

/-- Closes the innermost container. -/
def pop (r : Reader) (stop : Nat) : Reader :=
  match r.stack with
  | [] => r
  | o :: os => { r with stack := os }.add (o.close stop)

/-- Closes containers until `n` are left. -/
def closeTo (n : Nat) (stop : Nat) : Nat → Reader → Reader
  | 0, r => r
  | fuel + 1, r => if n < r.stack.length then closeTo n stop fuel (r.pop stop) else r

/-- A list that is open is a loose one. -/
def loosen (o : OpenBlock) : OpenBlock :=
  match o.kind with
  | .list mark number _ => { o with kind := .list mark number false }
  | _ => o

/-- What comes next belongs to no list that is innermost. After a blank line, the list around the item that
it belongs to is loose. -/
def finishList (r : Reader) (stop : Nat) : Reader :=
  let r := match r.stack with
    | ⟨.list .., _, _⟩ :: _ => r.pop stop
    | _ => r
  let stack := if r.lastBlank then
      match r.stack with
      | o :: p :: os => o :: loosen p :: os
      | os => os
    else r.stack
  { r with stack, lastBlank := false, begun := false }

/-- The next item belongs to the list that is innermost, if it has the same mark, or else starts one. -/
def continueList (r : Reader) (start : Nat) (mark : UInt8) (number : Nat) : Reader :=
  let fresh : Reader := { (r.finishList start).push (.list mark number true) start with lastBlank := false }
  match r.stack with
  | o :: os =>
    match o.kind with
    | .list m _ _ =>
      if m == mark then
        if r.lastBlank then { r with stack := loosen o :: os, lastBlank := false } else r
      else fresh
    | _ => fresh
  | [] => fresh

/-- Opens the containers that start on the line `l`, which began at `lineStart`. A line that ends after a
marker gives the offset after it. -/
def openContainers (lineStart : Nat) : Nat → Reader → LineStart → Reader × LineStart × Option Nat
  | 0, r, l => (r, l, none)
  | fuel + 1, r, l =>
    let s := l.source
    let (l', indent) := l.spaceUpTo 4
    if 4 ≤ indent then (r, l, none)
    else match l'.marker? indent with
      | some (after, m) =>
        let start := l'.pos - indent
        let r := (r.continueList start m.mark m.number).push (.item m.indent) start
        match blankLine? s after.pos with
        | some next => ({ r with begun := true }, after, some next)
        | none =>
          match after.task? with
          | none => openContainers lineStart fuel r after
          | some (l, checked) =>
            let task : Token := ⟨after.pos, l.pos, .task checked⟩
            match blankLine? s l.pos with
            | some next =>
              let r := r.add (.leaf ⟨after.pos, l.pos⟩ (.task checked))
              ({ r with begun := true }, l, some next)
            | none => openContainers lineStart fuel { r with task := [task] } l
      | none =>
        match l'.quoteMark? with
        | some after => openContainers lineStart fuel ((r.finishList lineStart).push .quote l'.pos) after
        | none => (r, l, none)

/-- A blank line at `start`: an item that began with one holds no more. -/
def blank (r : Reader) (start : Nat) : Reader :=
  match r.stack with
  | ⟨.quote, _, _⟩ :: _ => r
  | ⟨.item _, _, _⟩ :: _ => if r.begun then { r.pop start with lastBlank := true, begun := false }
    else { r with lastBlank := true }
  | _ => { r with lastBlank := true }

/-- Definitions and then a paragraph at the text of the line `l`. -/
def textLines (s : Source) : Nat → Reader → LineStart → Reader × Nat
  | 0, r, l => (r, l.pos)
  | fuel + 1, r, l =>
    match definition? s r.path l.pos with
    | none =>
      let leaf := paragraph s r.path l.pos r.task
      ({ r with task := [] }.addLeaf leaf, leaf.next)
    | some (key, target, stop) =>
      let r := if r.definitions.contains key then r
        else { r with definitions := r.definitions.insert key target }
      match blankLine? s stop with
      | none => (r, stop)
      | some next =>
        let (l, inside) := enterLine s r.path next
        let (l, deep) := l.space 4
        if !deep && interrupts s r.path inside l.pos then (r, next)
        else textLines s fuel r l.allSpace

/-- Reads what starts on the line at `start`; gives the offset of the next line. -/
def step (s : Source) (r : Reader) (start : Nat) : Reader × Nat :=
  let (l, n) := matchContainers r.path (.ofPos s start)
  let r := closeTo n start r.stack.length r
  match openContainers start (s.size + 1 - start) r l with
  | (r, _, some next) => (r, next)
  | (r, l, none) =>
    match blankLine? s l.pos with
    | some next => (r.blank start, next)
    | none =>
      let r := r.finishList start
      let (l, indent) := l.spaceUpTo 4
      let i := l.pos
      if 4 ≤ indent then
        let (leaf, blank) := indented s r.path i l.spare
        ({ r.addLeaf leaf with lastBlank := blank }, leaf.next)
      else
        let leaf? : Option LeafEnd :=
          if s.hasByte i 60 then
            match blockEnd? s (i + 1) with
            | some word => some (htmlBlock s r.path (some word) i indent)
            | none =>
              if opensNamedBlock s (i + 1) || opensTagBlock s i then some (htmlBlock s r.path none i indent)
              else none
          else match thematicBreak? s i with
            | some next => some ⟨⟨i, next⟩, .rule, next⟩
            | none => match headingLevel? s i with
              | some level => some (heading s r.path i level)
              | none => match fence? s i with
                | some (n, mark) => some (fenced s r.path i indent n mark)
                | none => none
        match leaf? with
        | some leaf => (r.addLeaf leaf, leaf.next)
        | none => textLines s (s.size + 1 - i) r l

/-- Reads from `i` to the end of the source and closes what is open. -/
def run (s : Source) : Nat → Reader → Nat → Reader
  | 0, r, i => closeTo 0 i r.stack.length r
  | fuel + 1, r, i =>
    if s.size ≤ i then closeTo 0 i r.stack.length r
    else
      let (r, i) := r.step s i
      run s fuel r i

end Reader

/-- The blocks of a text and the targets of its link definitions. -/
structure Document where
  blocks : List Block
  definitions : StringMap (String × String)

/-- Reads a text. -/
def Document.ofSource (s : Source) : Document :=
  let r := Reader.run s (s.size + 1) .init 0
  ⟨r.done.reverse, r.definitions⟩

end RichDoc.Markdown
