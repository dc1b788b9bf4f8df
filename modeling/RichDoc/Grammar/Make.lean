import RichDoc.Document.Basic
import RichDoc.Grammar.Basic

/-! # Making documents

`Grammar.node`, `Grammar.text`, `Grammar.mark` and `Grammar.addMark` make the nodes and marks that the
grammar allows. -/

namespace RichDoc

/-- The declared attributes, given or by default; what is given beside them is left out. -/
def AttrSpecs.fill (owner : String) (given : Data) : List (String × Option Json) → Except SchemaError Data
  | [] => .ok ∅
  | (k, default) :: r =>
    match given.get? k, default with
    | some v, _ | none, some v => do return (← fill owner given r).insert k v
    | none, none => .error (.missingAttribute owner k)

namespace Grammar

/-- Whether the children may stand in a node of type `t`. -/
def checkContent (g : Grammar) (t : NodeType) (content : List Document) : Except SchemaError Unit :=
  match t.content with
  | none => if content.isEmpty then .ok () else .error (.leafWithContent t.name)
  | some c =>
    let types := content.map (·.type)
    match c.accepts (fun child name => g.isA child name) types with
    | .ok true => .ok ()
    | .ok false => .error (.invalidContent t.name (t.spec.content.getD "") types)
    | .error e => .error (.overflow e)

/-- Whether the node type `t` allows all marks of the children. -/
def checkMarks (t : NodeType) (content : List Document) : Except SchemaError Unit :=
  match (content.flatMap (·.marks)).find? fun m => !t.spec.marks.allows m.type with
  | some m => .error (.markNotAllowed t.name m.type)
  | none => .ok ()

/-- A node that is no text. -/
def node (g : Grammar) (type : String) (attrs : Data) (content : List Document) :
    Except SchemaError Document := do
  match g.nodeType? type with
  | none => .error (.unknownNodeType type)
  | some t =>
    if type = "text" then .error .emptyText else
    let attrs ← AttrSpecs.fill type attrs t.spec.attrs.entries
    g.checkContent t content
    checkMarks t content
    return ⟨type, attrs, content, none, []⟩

/-- A mark. -/
def mark (g : Grammar) (type : String) (attrs : Data) : Except SchemaError Mark := do
  match g.markType? type with
  | none => .error (.unknownMarkType type)
  | some t => return ⟨type, ← AttrSpecs.fill type attrs t.spec.attrs.entries⟩

/-- `m` in front of the first mark of higher rank. -/
def insertMark (g : Grammar) (rank : Nat) (m : Mark) : List Mark → List Mark
  | [] => [m]
  | n :: r => if (g.markRank? n.type).any (rank < ·) then m :: n :: r else n :: g.insertMark rank m r

/-- The node with the mark, in place of one of the same type. -/
def addMark (g : Grammar) (d : Document) (m : Mark) : Except SchemaError Document :=
  match g.markRank? m.type with
  | none => .error (.unknownMarkType m.type)
  | some rank => .ok { d with marks := g.insertMark rank m (d.marks.filter (·.type != m.type)) }

/-- A text node with marks. -/
def text (g : Grammar) (value : String) (marks : List Mark) : Except SchemaError Document :=
  if (g.nodeType? "text").isNone then .error .noTextType
  else if value.isEmpty then .error .emptyText
  else marks.foldlM g.addMark ⟨"text", ∅, [], some value, []⟩

end Grammar
end RichDoc
