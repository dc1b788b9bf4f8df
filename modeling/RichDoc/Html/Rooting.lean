import RichDoc.Tree.Node

/-! # Literals outside of text

An `html` literal stands in a line of text. `wrapStray` puts each one that stands elsewhere into a paragraph of
its own, in its place. -/

namespace RichDoc.Html

/-- A paragraph around a literal. -/
def paragraphOf (n : Node) : Node := { Node.parent .paragraph [n] with span := n.span }

mutual
/-- Wraps the literals whose parent does not hold text. -/
def wrapStray : Node → Node
  | ⟨k, v, cs, p, d⟩ => ⟨k, v, wrapStrays? k cs, p, d⟩

/-- `wrapStray` below a node of kind `k` whose children may be absent. -/
def wrapStrays? (k : Kind) : Option (List Node) → Option (List Node)
  | none => none
  | some cs => some (wrapStrays k cs)

/-- `wrapStray` on the children of a node of kind `k`. -/
def wrapStrays (k : Kind) : List Node → List Node
  | [] => []
  | n :: r =>
    (if n.kind = .html ∧ !k.holdsPhrasing then paragraphOf (wrapStray n) else wrapStray n) ::
      wrapStrays k r
end

end RichDoc.Html
