import RichDoc.Tree.Node

/-! # A tree as a table

`Node.slots` takes a tree apart: its nodes in document order, each without its children, with the place of its parent
and the places of its children. Nodes of the table can be changed or marked as removed. `Slots.toNode` puts the tree
together again, without the subtrees of removed nodes, and moves the nodes out of the table as it goes. The root is
never left out. -/

namespace RichDoc

/-- A node without its children, the places of its parent and its children, and whether it has a list of them. -/
structure Slot where
  node : Node
  parent : Option Nat
  children : List Nat
  isParent : Bool
  removed : Bool
deriving Repr, Inhabited

/-- The nodes of a tree in document order. -/
abbrev Slots := Array Slot

namespace Slots

mutual
/-- Adds a tree at the end of a table, under `parent`. -/
def push (t : Slots) (parent : Option Nat) : Node → Slots
  | ⟨k, v, cs, p, d⟩ => pushBelow? (Array.push t ⟨⟨k, v, none, p, d⟩, parent, [], cs.isSome, false⟩) t.size cs

/-- Adds the children, if there are any, of the node at place `i`. -/
def pushBelow? (t : Slots) (i : Nat) : Option (List Node) → Slots
  | none => t
  | some cs => pushBelow t i cs

/-- Adds children of the node at place `i`, whose slot is told the place of each. -/
def pushBelow (t : Slots) (i : Nat) : List Node → Slots
  | [] => t
  | c :: r => pushBelow ((push t (some i) c).modify i fun s => { s with children := s.children ++ [t.size] }) i r
end

/-- The node or one it stands under is removed. -/
def isRemoved (t : Slots) (i : Nat) : Bool :=
  match t[i]? with
  | none => false
  | some s =>
    s.removed ||
      match s.parent with
      | some p => if p < i then isRemoved t p else false
      | none => false
termination_by i

/-- Where the node stands in the source. -/
def span? (t : Slots) (i : Nat) : Option Span := t[i]?.bind (·.node.span)

def remove (t : Slots) (i : Nat) : Slots := t.modify i fun s => { s with removed := true }

/-- Takes the removal of a node back. -/
def restore (t : Slots) (i : Nat) : Slots := t.modify i fun s => { s with removed := false }

/-- Changes a node, not its children. -/
def edit (t : Slots) (i : Nat) (f : Node → Node) : Slots :=
  t.modify i fun s => { s with node := { f s.node with children := none } }

/-- The number of places of children in a table. -/
def links (t : Slots) : Nat := t.toList.foldr (fun s n => s.children.length + n) 0

theorem links_modify {t : Slots} {i : Nat} {s : Slot} (hs : t[i]? = some s) (f : Slot → Slot) :
    links (t.modify i f) + s.children.length = links t + (f s).children.length := by
  have hlist (l : List Slot) (i : Nat) (hs : l[i]? = some s) :
      (l.modify i f).foldr (fun s n => s.children.length + n) 0 + s.children.length =
        l.foldr (fun s n => s.children.length + n) 0 + (f s).children.length := by
    induction l generalizing i with
    | nil => simp at hs
    | cons r l ih =>
      cases i with
      | zero =>
        obtain rfl : r = s := by simpa using hs
        simp
        omega
      | succ i =>
        have := ih i (by simpa using hs)
        simp
        omega
  simpa [links] using hlist t.toList i (by simpa using hs)

theorem links_modify_le (t : Slots) (i : Nat) {f : Slot → Slot}
    (hf : ∀ s, (f s).children.length ≤ s.children.length) : links (t.modify i f) ≤ links t := by
  cases hs : t[i]? with
  | none =>
    have hsame : t.modify i f = t := by
      apply Array.ext_getElem?
      intro k
      rw [Array.getElem?_modify]
      split
      · next hik => rw [← hik, hs, Option.map_none]
      · rfl
    exact Nat.le_of_eq (congrArg links hsame)
  | some s =>
    have := links_modify hs f
    have := hf s
    omega

/-- Takes the places of the children out of a slot. -/
def detach (t : Slots) (i : Nat) : Slots := t.modify i fun s => { s with children := [] }

theorem links_detach {t : Slots} {i : Nat} {s : Slot} (hs : t[i]? = some s) :
    links (t.detach i) + s.children.length = links t :=
  links_modify hs fun s => { s with children := [] }

mutual
/-- The tree at place `i`, moved out of the table, and what is left of the table. -/
def build (t : Slots) (i : Nat) : Node × { u : Slots // links u ≤ links t } :=
  match hs : t[i]? with
  | none => (default, ⟨t, Nat.le_refl _⟩)
  | some s =>
    let (cs, u) := buildAll (t.detach i) s.children
    let node := (u.1[i]?.map fun s => if s.isParent then { s.node with children := some cs } else s.node).getD default
    (node, ⟨u.1.modify i fun s => { s with node := .void s.node.kind }, by
      exact Nat.le_trans (links_modify_le _ _ fun _ => Nat.le_refl _)
        (Nat.le_trans u.2 (links_modify_le _ _ fun _ => Nat.zero_le _))⟩)
termination_by 2 * links t + 1
decreasing_by
  have := links_detach hs
  omega

/-- The trees at places, but for those of removed nodes, and what is left of the table. -/
def buildAll (t : Slots) : List Nat → List Node × { u : Slots // links u ≤ links t }
  | [] => ([], ⟨t, Nat.le_refl _⟩)
  | j :: r =>
    if (t[j]?.map (·.removed)).getD false then buildAll t r
    else
      let (n, u) := build t j
      let (ns, v) := buildAll u.1 r
      (n :: ns, ⟨v.1, Nat.le_trans v.2 u.2⟩)
termination_by is => 2 * (links t + is.length)
decreasing_by
  all_goals
    simp only [List.length_cons]
    omega
end

/-- The tree of a table, its root removed or not. -/
def toNode (t : Slots) : Node := (build (t.restore 0) 0).1

end Slots

/-- The table of a tree. -/
def Node.slots (n : Node) : Slots := Slots.push #[] none n

end RichDoc
