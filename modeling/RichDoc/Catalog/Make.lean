import RichDoc.Extension.Basic
import RichDoc.Grammar.Make

/-! # What converters make

Short forms that the extensions of the catalog share. -/

namespace RichDoc.Catalog

/-- The names of the extensions, in the order of their places in the library. -/
def names : List String :=
  ["markdown", "gfm", "gfm_tables", "html", "doc", "text", "paragraph", "heading", "blockquote", "code_block",
    "horizontal_rule", "hard_break", "image", "list", "list_item", "em", "strong", "code", "link",
    "strikethrough", "table", "table_row", "table_cell"]

/-- The places of the extensions of these names. -/
def places (ns : List String) : List Nat := ns.map names.idxOf

/-- A string, or null. -/
def orNull (s : Option String) : Json := s.elim .null .str

/-- One node of a type. -/
def one (g : Grammar) (type : String) (attrs : List (String × Json)) (content : List Document) :
    Conversion (List Document) := do
  return [← .ofSchema (g.node type (.ofList attrs) content)]

/-- A text node for the value of a literal; nothing for an empty one. -/
def textOf (g : Grammar) (n : Node) (marks : List Mark) : Conversion (List Document) :=
  match n.value with
  | some v => if v.isEmpty then pure [] else do return [← .ofSchema (g.text v marks)]
  | none => pure []

/-- The documents, each with the mark. -/
def markAll (g : Grammar) (m : Mark) (ds : List Document) : Conversion (List Document) :=
  ds.mapM fun d => .ofSchema (g.addMark d m)

/-- A node type whose converters only rename it. -/
def container (type : String) (kind : Kind) (spec : NodeSpec) (requires : List String) : Extension where
  name := type
  kind := some kind
  type := some type
  fragment := some (.node spec)
  requires := places requires
  toDocument g _ children := one g type [] children
  toTree _ _ children := pure [.parent kind children]

/-- A node type without content whose converters only rename it. -/
def leaf (type : String) (kind : Kind) (spec : NodeSpec) : Extension where
  name := type
  kind := some kind
  type := some type
  fragment := some (.node spec)
  toDocument g _ _ := one g type [] []
  toTree _ _ _ := pure [.void kind]

/-- A mark without attributes that stands for a kind of node. -/
def wrapping (type : String) (kind : Kind) (key : String) : Extension where
  name := type
  kind := some kind
  type := some type
  fragment := some (.mark {})
  toDocument g _ children := do markAll g (← .ofSchema (g.mark type ∅)) children
  wrap _ _ inner := pure [.parent kind inner]
  keys := [(key, .toggleMark type)]

/-- An extension that only needs others. -/
def bundle (name : String) (members : List String) : Extension where
  name := name
  requires := places members

end RichDoc.Catalog
