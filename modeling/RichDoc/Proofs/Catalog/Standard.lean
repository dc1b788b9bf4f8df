import RichDoc.Catalog.Library
import RichDoc.Engine
import RichDoc.Proofs.Extension.Gathering

/-!
# The standard composition

`Catalog.standard` is what the library composes of its Markdown dialect and HTML with the settings it has from the
start (`compose_standard`): the extensions in the order in which they are met, and their grammar.
-/

namespace RichDoc.Catalog

/-- The node type of an extension that declares a node, with its content expression as read. -/
def nodeType (e : Extension) (content : Option Content) : NodeType :=
  match e.node? with
  | some (name, spec) => ⟨name, spec, content⟩
  | none => ⟨"", {}, none⟩

/-- Any number of children that go by a name. -/
def star (n : String) : Content := .repeated (.name n) 0 none

/-- At least one child, all of which go by a name. -/
def plus (n : String) : Content := .repeated (.name n) 1 none

/-- The extensions that the Markdown dialect and HTML bring in. -/
def standardExtensions : List Extension := [
  bundle "gfm" ["markdown", "strikethrough", "gfm_tables"],
  bundle "markdown" ["doc", "text", "paragraph", "heading", "blockquote", "code_block", "horizontal_rule",
    "hard_break", "image", "list", "list_item", "link", "em", "strong", "code"],
  doc, paragraph, text, heading, blockquote, codeBlock, horizontalRule, hardBreak, image, list, listItem, link, em,
  strong, code, strikethrough, bundle "gfm_tables" ["table", "table_row", "table_cell"], table, tableRow,
  tableCell, html {}]

/-- The grammar of the standard extensions. -/
def standardGrammar : Grammar where
  nodes := [nodeType doc (star "block"), nodeType paragraph (star "inline"), nodeType text none,
    nodeType heading (star "inline"), nodeType blockquote (star "block"), nodeType codeBlock (star "text"),
    nodeType horizontalRule none, nodeType hardBreak none, nodeType image none, nodeType list (plus "list_item"),
    nodeType listItem (star "block"), nodeType table (plus "table_row"), nodeType tableRow (star "table_cell"),
    nodeType tableCell (star "inline"), nodeType (html {}) (star "text")]
  marks := [⟨"link", 0, { attrs := .ofList [("href", none), ("title", some .null)], inclusive := false }⟩,
    ⟨"em", 1, {}⟩, ⟨"strong", 2, {}⟩, ⟨"code", 3, { inclusive := false }⟩, ⟨"strikethrough", 4, {}⟩]
  top := some "doc"

/-- The Markdown dialect and HTML with the settings it has from the start. -/
def standard : Composition := .of standardExtensions standardGrammar

theorem visit_standard : library.visit (places ["gfm", "html"]) =
    ⟨[1, 0, 4, 6, 5, 7, 8, 9, 10, 11, 12, 13, 14, 18, 15, 16, 17, 19, 2, 20, 21, 22, 3], none⟩ := by
  simp [Library.visit, Library.visitFrom, library, places, names, List.idxOf_cons, bundle, container, leaf, wrapping,
    doc, text, paragraph, heading, blockquote, codeBlock, horizontalRule, hardBreak, image, list, listItem, em, strong,
    code, link, strikethrough, table, tableRow, tableCell, html]

theorem members_standard : library.members (places ["gfm", "html"]) = standardExtensions := by
  rw [Library.members, visit_standard]
  rfl

theorem compose_standard : library.compose (places ["gfm", "html"]) = .ok standard := by
  refine Library.compose_eq_ok.2 ?_
  rw [members_standard]
  have hwhole : ∀ e ∈ standardExtensions, e.Whole := by decide +kernel
  have hapart : standardExtensions.Pairwise Extension.Apart := by decide +kernel
  have hgrammar : Composition.grammarOf standardExtensions = .ok standardGrammar := by with_unfolding_all rfl
  exact ⟨congrArg Visited.circle visit_standard, hwhole, hapart, hgrammar, rfl⟩

end RichDoc.Catalog
