import RichDoc.Data
import RichDoc.Span
import RichDoc.Tree.Kind

/-! # The external tree

`Node` is a node of the Markdown-shaped tree: a kind, maybe a literal value, maybe a list of
children, maybe a place in the text, and further data. A node without children list and one with an
empty list differ. `Node.shape` forgets all but kinds and child lists. -/

namespace RichDoc

/-- A node of the external tree. -/
structure Node where
  kind : Kind
  value : Option String
  children : Option (List Node)
  span : Option Span
  data : Data
deriving Repr, Inhabited

/-- Kinds and child lists of a tree. -/
inductive Shape where
  | mk (kind : Kind) (children : Option (List Shape))
deriving Repr, Inhabited

namespace Node

/-- A node with children. -/
def parent (k : Kind) (cs : List Node) : Node := ⟨k, none, some cs, none, ∅⟩

/-- A node with a literal value. -/
def literal (k : Kind) (v : String) : Node := ⟨k, some v, none, none, ∅⟩

/-- A node with neither value nor children. -/
def void (k : Kind) : Node := ⟨k, none, none, none, ∅⟩

/-- The node placed between two offsets. -/
def placed (n : Node) (i j : Nat) : Node := { n with span := some (Span.make i j) }

/-- The node with `k` set to `v` in its data. -/
def withData (n : Node) (k : String) (v : Json) : Node := { n with data := n.data.insert k v }

/-- `withData` if there is a value. -/
def withData? (n : Node) (k : String) : Option Json → Node
  | some v => n.withData k v
  | none => n

/-- The children, none for a node without a list. -/
def childList (n : Node) : List Node := n.children.getD []

mutual
/-- The literal values of a tree in document order. -/
def textContent : Node → String
  | ⟨_, v, cs, _, _⟩ => v.getD "" ++ textContents? cs

/-- The text of a list of children that may be absent. -/
def textContents? : Option (List Node) → String
  | none => ""
  | some cs => textContents cs

/-- The text of a list of nodes. -/
def textContents : List Node → String
  | [] => ""
  | n :: r => textContent n ++ textContents r
end

mutual
/-- Kinds and child lists. -/
def shape : Node → Shape
  | ⟨k, _, cs, _, _⟩ => .mk k (shapes? cs)

/-- The shapes of a list of children that may be absent. -/
def shapes? : Option (List Node) → Option (List Shape)
  | none => none
  | some cs => some (shapes cs)

/-- The shapes of a list of nodes. -/
def shapes : List Node → List Shape
  | [] => []
  | n :: r => shape n :: shapes r
end

end Node

namespace Shape

mutual
/-- Whether two shapes are the same. -/
def beq : Shape → Shape → Bool
  | .mk k cs, .mk l ds => k == l && beqLists? cs ds

/-- Whether two child lists that may be absent are the same. -/
def beqLists? : Option (List Shape) → Option (List Shape) → Bool
  | none, none => true
  | some cs, some ds => beqLists cs ds
  | _, _ => false

/-- Whether two lists of shapes are the same. -/
def beqLists : List Shape → List Shape → Bool
  | [], [] => true
  | c :: cs, d :: ds => beq c d && beqLists cs ds
  | _, _ => false
end

mutual
theorem beq_iff : (a b : Shape) → beq a b = true ↔ a = b
  | .mk k cs, .mk l ds => by simp [beq, beqLists?_iff cs ds]

theorem beqLists?_iff : (a b : Option (List Shape)) → beqLists? a b = true ↔ a = b
  | none, b => by cases b <;> simp [beqLists?]
  | some cs, b => by cases b <;> simp [beqLists?, beqLists_iff cs]

theorem beqLists_iff : (a b : List Shape) → beqLists a b = true ↔ a = b
  | [], b => by cases b <;> simp [beqLists]
  | c :: cs, b => by cases b <;> simp [beqLists, beq_iff c, beqLists_iff cs]
end

instance : DecidableEq Shape := fun a b => decidable_of_iff _ (beq_iff a b)

end Shape
end RichDoc
