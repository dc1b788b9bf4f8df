import RichDoc.Composition

/-! # From trees to documents

`Composition.down` converts a tree from its leaves up: the children of a node are converted before the node, and
all that a converter gives takes the place of the node. `Composition.toDocument` wants one document of the top
type for the whole. -/

namespace RichDoc.Composition
variable (c : Composition)

/-- Converts a node with its children converted already. -/
def downNode (n : Node) (children : List Document) : Conversion (List Document) :=
  match c.ofKind? n.kind with
  | some e => e.toDocument c.grammar n children
  | none => .fail (.unknownType n.kind.name .down)

mutual
/-- Converts a tree. -/
def down : Node → Conversion (List Document)
  | ⟨k, v, cs, p, d⟩ => do downNode c ⟨k, v, cs, p, d⟩ (← downList? cs)

/-- Converts a list of children that may be absent. -/
def downList? : Option (List Node) → Conversion (List Document)
  | none => pure []
  | some cs => downList cs

/-- Converts a list of trees. -/
def downList : List Node → Conversion (List Document)
  | [] => pure []
  | n :: r => do
    let ds ← down n
    return ds ++ (← downList r)
end

/-- The document of a whole tree. -/
def toDocument (n : Node) : Conversion Document := do
  let ds ← c.down n
  let top := c.grammar.topType?.map NodeType.name
  match ds with
  | [d] => if top = some d.type then pure d else .fail (.rootMismatch (top.getD "root") 1)
  | ds => .fail (.rootMismatch (top.getD "root") ds.length)

end RichDoc.Composition
