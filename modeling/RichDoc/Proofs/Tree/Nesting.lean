import RichDoc.Tree.Builder

/-!
# Events and their nesting

Balanced events close each construct that they open. They are the events of a list of `Nesting`s, single events and
constructs around others (`exists_nestings_of_balanced`), and the tree that they stand for is defined by recursion on
these (`Nesting.tree`):

* a construct that keeps text, for its value or as alternative text, gives a node without children, whatever is nested
  in it;
* a list item puts what stands in a line of text into paragraphs, one for each row between its blocks;
* all others have the nodes of what is inside for children, with texts side by side made one;
* a task marker gives no node. It belongs to the item around it.
-/

namespace RichDoc
open Markdown (Event Tag)

namespace Markdown

/-- The event opens or closes a construct. -/
def Event.isBracket : Event → Bool
  | .start _ | .stop => true
  | _ => false

/-- The text of an event where only text is kept; formulas and references add none. -/
def Event.keptText : Event → String
  | .text s | .code s | .html s | .inlineHtml s => s
  | .softBreak | .hardBreak => "\n"
  | _ => ""

/-- What is made of the events inside a construct. -/
inductive Making where
  /-- The value of a literal. -/
  | value
  /-- The alternative text of an image. -/
  | alt
  /-- The blocks of a list item. -/
  | item
  /-- The children of a node. -/
  | children
deriving DecidableEq

def Tag.making : Tag → Making
  | .codeBlock _ | .htmlBlock | .metadata => .value
  | .image .. => .alt
  | .item => .item
  | _ => .children

end Markdown

/-- From `d` open constructs on, each construct is closed, and none is that is not open. -/
def Balanced : Nat → List (Event × Span) → Prop
  | d, [] => d = 0
  | d, (.start _, _) :: es => Balanced (d + 1) es
  | 0, (.stop, _) :: _ => False
  | d + 1, (.stop, _) :: es => Balanced d es
  | d, _ :: es => Balanced d es

/-- An event that is no bracket, or a construct with all that it holds. -/
inductive Nesting where
  | leaf (e : Event) (r : Span) (h : e.isBracket = false)
  | pair (t : Tag) (first : Span) (inside : List Nesting) (last : Span)

namespace Nesting

mutual
def events : Nesting → List (Event × Span)
  | leaf e r _ => [(e, r)]
  | pair t a inside b => (.start t, a) :: (eventsOf inside ++ [(.stop, b)])

def eventsOf : List Nesting → List (Event × Span)
  | [] => []
  | x :: xs => events x ++ eventsOf xs
end

mutual
/-- The text of all events. -/
def text : Nesting → String
  | leaf e _ _ => e.keptText
  | pair _ _ inside _ => textOf inside

def textOf : List Nesting → String
  | [] => ""
  | x :: xs => text x ++ textOf xs
end

end Nesting

/-! ### Nodes side by side -/

namespace Node

/-- The node is a text with a value. -/
def isText (n : Node) : Bool := n.kind == .text && n.value.isSome

/-- The text `m` with that of `n` behind it. -/
def joinText (m n : Node) : Node :=
  { m with value := some (m.value.getD "" ++ n.value.getD ""), span := Option.merge Span.cover m.span n.span }

/-- A node in front of others; a text goes into a text that comes first. -/
def glue (m : Node) : List Node → List Node
  | n :: r => if m.isText && n.isText then joinText m n :: r else m :: n :: r
  | [] => [m]

/-- The nodes with texts side by side made one. -/
def joinTexts (ns : List Node) : List Node := ns.foldr glue []

end Node

namespace Nesting

/-! ### The tree of the nesting -/

/-- What an event or a construct comes to where nodes are gathered: where it starts, whether it ends a row of inline
content, the markers in it that are for an item around it, and its node. -/
structure Part where
  start : Nat
  isBlock : Bool
  checks : List Bool
  node : Option Node

/-- A row of inline content, or a block. -/
inductive Row where
  | inline (ps : List Part)
  | block (p : Part)

/-- The parts of an item in rows that are as long as can be. -/
def rows : List Part → List Row
  | [] => []
  | p :: ps =>
    if p.isBlock then .block p :: rows ps
    else
      match rows ps with
      | .inline qs :: rs => .inline (p :: qs) :: rs
      | rs => .inline [p] :: rs

/-- A paragraph around nodes, from `start` to where the last of them stops. -/
def paragraphAt (start : Nat) (ns : List Node) : Node :=
  { Node.parent .paragraph ns with
    span := some ⟨start, (ns.filterMap (·.span.map Span.stop)).foldl max start⟩ }

/-- The nodes of a row: a block's own, or a paragraph that starts with the first part that has a node. -/
def Row.nodes : Row → List Node
  | .block p => p.node.toList
  | .inline ps =>
    match ps.find? (·.node.isSome) with
    | some p => [paragraphAt p.start (Node.joinTexts (ps.filterMap (·.node)))]
    | none => []

/-- The text without a line feed at its end. -/
def withoutLineFeed (s : String) : String :=
  if s.toList.getLast? = some '\n' then String.ofList s.toList.dropLast else s

/-- The node of a construct with `text` and `parts` inside. -/
def pairNode (source : Source) (t : Tag) (first last : Span) (text : String) (parts : List Part) : Node :=
  let n := { (Builder.opened t).1 with span := some ⟨first.start, max (source.trimmedStop last) first.start⟩ }
  match t.making with
  | .value => { n with value := some (withoutLineFeed text), children := none }
  | .alt => { n.withData "alt" text with value := none, children := none }
  | .item =>
    { n.withData? "checked" ((parts.flatMap (·.checks)).getLast?.map .bool) with
      children := some ((rows parts).flatMap Row.nodes) }
  | .children => { n with children := some (Node.joinTexts (parts.filterMap (·.node))) }

/-- The node of an event, if it has one. -/
def leafNode (source : Source) (r : Span) : Event → Option Node
  | .text s => some ((Node.literal .text s).placed r.start r.stop)
  | .softBreak => some ((Node.literal .text "\n").placed r.start r.stop)
  | .hardBreak => some ((Node.void .break).placed r.start r.stop)
  | .code s => some ((Node.literal .inlineCode s).placed r.start r.stop)
  | .html s | .inlineHtml s => some ((Node.literal .html s).placed r.start r.stop)
  | .inlineMath s => some ((Node.literal (.other "inlineMath") s).placed r.start r.stop)
  | .displayMath s => some ((Node.literal (.other "math") s).placed r.start r.stop)
  | .footnoteReference l =>
    some (((Node.void (.other "footnoteReference")).withData "label" l).placed r.start r.stop)
  | .rule => some ((Node.void .thematicBreak).placed r.start (source.trimmedStop r))
  | .taskMarker _ | .start _ | .stop => none

mutual
def part (source : Source) : Nesting → Part
  | leaf e r _ => ⟨r.start, e == .rule, match e with | .taskMarker c => [c] | _ => [], leafNode source r e⟩
  | pair t a inside b =>
    ⟨a.start, !t.isInline, if t.making = .children then (parts source inside).flatMap (·.checks) else [],
      some (pairNode source t a b (textOf inside) (parts source inside))⟩

def parts (source : Source) : List Nesting → List Part
  | [] => []
  | x :: xs => part source x :: parts source xs
end

/-- The tree of balanced events. -/
def tree (source : Source) (xs : List Nesting) : Node :=
  { Node.parent .root (Node.joinTexts ((parts source xs).filterMap (·.node))) with span := some ⟨0, source.size⟩ }

/-! ### Balanced events are those of nestings -/

theorem balanced_cons_of_leaf {d : Nat} {e : Event} {r : Span} {es : List (Event × Span)} (h : e.isBracket = false) :
    Balanced d ((e, r) :: es) ↔ Balanced d es := by
  cases e <;> simp [Event.isBracket] at h <;> simp [Balanced]

/-- Up to the next bracket that closes what was open before, events are those of nestings. -/
theorem exists_nestings {d : Nat} {es : List (Event × Span)} (h : Balanced d es) :
    ∃ xs rest, es = eventsOf xs ++ rest ∧
      (d = 0 ∧ rest = [] ∨ ∃ d' b after, d = d' + 1 ∧ rest = (.stop, b) :: after ∧ Balanced d' after) := by
  induction hl : es.length using Nat.strongRecOn generalizing d es with
  | ind l ih =>
    subst hl
    match es with
    | [] => exact ⟨[], [], rfl, .inl ⟨h, rfl⟩⟩
    | (e, a) :: es =>
      by_cases he : e.isBracket = false
      · obtain ⟨xs, rest, rfl, hrest⟩ := ih es.length (by simp) ((balanced_cons_of_leaf he).1 h) rfl
        exact ⟨leaf e a he :: xs, rest, by simp [eventsOf, events], hrest⟩
      · cases e with
        | start t =>
          -- the construct with what it holds, then what stands behind it
          have h : Balanced (d + 1) es := h
          obtain ⟨xs, rest, rfl, ⟨hd, -⟩ | ⟨d', b, after, hd, rfl, hafter⟩⟩ := ih es.length (by simp) h rfl
          · cases hd
          · obtain rfl : d = d' := Nat.succ.inj hd
            obtain ⟨ys, rest, rfl, hrest⟩ := ih after.length (by simp; omega) hafter rfl
            exact ⟨pair t a xs b :: ys, rest, by simp [eventsOf, events], hrest⟩
        | stop =>
          cases d with
          | zero => exact h.elim
          | succ d => exact ⟨[], _, rfl, .inr ⟨d, a, es, rfl, rfl, h⟩⟩
        | _ => simp [Event.isBracket] at he

theorem exists_nestings_of_balanced {es : List (Event × Span)} (h : Balanced 0 es) : ∃ xs, eventsOf xs = es := by
  obtain ⟨xs, rest, rfl, ⟨-, rfl⟩ | ⟨d, b, after, hd, -⟩⟩ := exists_nestings h
  · exact ⟨xs, (List.append_nil _).symm⟩
  · cases hd

end Nesting
end RichDoc
