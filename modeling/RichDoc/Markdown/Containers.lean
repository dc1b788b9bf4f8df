import RichDoc.Markdown.LineStart

/-! # Open containers

A line first goes on with the containers that are open, from the outermost one inward, as long as
each finds its mark (`matchContainers`). -/

namespace RichDoc.Markdown

/-- A container that asks something of each line. A list item asks for its indentation, a list for
nothing. -/
inductive Container where
  | quote
  | list
  | item (indent : Nat)
deriving DecidableEq, Repr

/-- How many of the containers, outermost first, the line goes on with. -/
def matchContainers : List Container → LineStart → LineStart × Nat
  | [], l => (l, 0)
  | c :: r, l =>
    let next? := match c with
      | .quote => (l.space 3).1.quoteMark?
      | .list => some l
      | .item indent =>
        let (l', found) := l.space indent
        if found || l'.atLineEnd then some l' else none
    match next? with
    | none => (l, 0)
    | some l =>
      let (l, n) := matchContainers r l
      (l, n + 1)

/-- The line at `i` and whether it goes on with all of the containers. -/
def enterLine (s : Source) (path : List Container) (i : Nat) : LineStart × Bool :=
  let (l, n) := matchContainers path (.ofPos s i)
  (l, n == path.length)

/-- The offset after what the line at `i` owes to the containers. -/
def skipContainers (s : Source) (path : List Container) (i : Nat) : Nat := (enterLine s path i).1.pos

end RichDoc.Markdown
