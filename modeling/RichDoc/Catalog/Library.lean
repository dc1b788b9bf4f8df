import RichDoc.Catalog.Block
import RichDoc.Catalog.Html
import RichDoc.Catalog.Inline
import RichDoc.Catalog.Table

/-! # The catalog

`Catalog.library` holds the extensions that come ready, at the places that `Catalog.names` gives.
`Library.request?` finds one by name, by that of the type it brings in or of the kind it stands for. HTML with
settings of its own is a new extension each time it is requested. -/

namespace RichDoc
namespace Catalog

/-- The extensions in the order of `names`. -/
def library : Library := #[
  bundle "markdown" ["doc", "text", "paragraph", "heading", "blockquote", "code_block", "horizontal_rule",
    "hard_break", "image", "list", "list_item", "link", "em", "strong", "code"],
  bundle "gfm" ["markdown", "strikethrough", "gfm_tables"],
  bundle "gfm_tables" ["table", "table_row", "table_cell"],
  html {}, doc, text, paragraph, heading, blockquote, codeBlock, horizontalRule, hardBreak, image, list, listItem,
  em, strong, code, link, strikethrough, table, tableRow, tableCell]

/-- The name under which an extension is listed that is known by another name too. -/
def listed : String → String
  | "root" => "doc"
  | "thematicBreak" => "horizontal_rule"
  | "break" => "hard_break"
  | "listItem" => "list_item"
  | "emphasis" => "em"
  | "inlineCode" => "code"
  | "delete" => "strikethrough"
  | "tableRow" => "table_row"
  | "tableCell" => "table_cell"
  | n => n

/-- The place of an extension by any of its names. -/
def place? (n : String) : Option Nat := names.idxOf? (listed n)

end Catalog

namespace Library

/-- HTML with these settings: its place, and the library that has it. -/
def html (lib : Library) (o : Html.Options) : Nat × Library :=
  if o = {} then (Catalog.names.idxOf "html", lib) else (lib.size, lib.push (Catalog.html o))

/-- An extension of the catalog by name, for a library that begins with the catalog. -/
def request? (lib : Library) (o : Html.Options) (n : String) : Option (Nat × Library) :=
  if n = "html" then some (lib.html o) else (Catalog.place? n).map (·, lib)

/-- Extensions of the catalog by name; fails on the first name that is unknown. -/
def requestAll (lib : Library) (o : Html.Options) : List String → Except String (List Nat × Library)
  | [] => .ok ([], lib)
  | n :: r =>
    match lib.request? o n with
    | none => .error n
    | some (i, lib) => do
      let (is, lib) ← requestAll lib o r
      return (i :: is, lib)

end Library
end RichDoc
