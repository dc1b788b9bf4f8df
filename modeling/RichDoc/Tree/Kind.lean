/-! # Kinds of nodes

The kinds a Markdown tree is made of, and `other` for those that extensions bring in. `ofName` and
`name` are inverse to one another on names (`name_ofName`). -/

namespace RichDoc

/-- What a node of the external tree is. -/
inductive Kind where
  | root | paragraph | heading | text | emphasis | strong | delete | inlineCode | code | html
  | blockquote | list | listItem | thematicBreak | break | link | image | table | tableRow | tableCell
  | other (name : String)
deriving DecidableEq, Repr, Inhabited

namespace Kind

/-- The name of a kind in tree dumps. -/
def name : Kind → String
  | root => "root"
  | paragraph => "paragraph"
  | heading => "heading"
  | text => "text"
  | emphasis => "emphasis"
  | strong => "strong"
  | delete => "delete"
  | inlineCode => "inlineCode"
  | code => "code"
  | html => "html"
  | blockquote => "blockquote"
  | list => "list"
  | listItem => "listItem"
  | thematicBreak => "thematicBreak"
  | .break => "break"
  | link => "link"
  | image => "image"
  | table => "table"
  | tableRow => "tableRow"
  | tableCell => "tableCell"
  | other n => n

/-- The kinds with a constructor of their own, in order. -/
def known : List Kind :=
  [root, paragraph, heading, text, emphasis, strong, delete, inlineCode, code, html, blockquote, list,
    listItem, thematicBreak, .break, link, image, table, tableRow, tableCell]

/-- The kind of a name. -/
def ofName (n : String) : Kind := (known.find? (·.name == n)).getD (other n)

/-- The children of these are inline content, so an `html` literal may be one. -/
def holdsPhrasing : Kind → Bool
  | paragraph | heading | tableCell | emphasis | strong | delete | link => true
  | _ => false

/-- Place in the declared order; all other kinds come last. -/
def rank (k : Kind) : Nat := known.idxOf k

/-- Declared kinds in their order, then the others by name. -/
def le (a b : Kind) : Bool :=
  a.rank < b.rank || (a.rank == b.rank && !(b.name < a.name))

theorem name_ofName (n : String) : (ofName n).name = n := by
  unfold ofName
  cases h : known.find? (·.name == n) with
  | none => rfl
  | some k => simpa using List.find?_some h

end Kind
end RichDoc
