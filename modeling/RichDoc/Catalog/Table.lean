import RichDoc.Catalog.Make

/-! # Tables -/

namespace RichDoc.Catalog

/-- A table keeps the alignments of its columns as they are. -/
def table : Extension where
  name := "table"
  kind := some .table
  type := some "table"
  fragment := some <| .node
    { content := some "table_row+", groups := ["block"], attrs := .ofList [("align", some (.arr []))] }
  requires := places ["table_row"]
  toDocument g n children := one g "table" [("align", (n.data.get? "align").getD (.arr []))] children
  toTree _ d children :=
    pure [(Node.parent .table children).withData "align" ((d.attrs.get? "align").getD (.arr []))]
  keys := [("Tab", .nextCell), ("Shift-Tab", .previousCell)]

def tableRow : Extension where
  name := "table_row"
  kind := some .tableRow
  type := some "table_row"
  fragment := some (.node { content := some "table_cell*", attrs := .ofList [("header", some false)] })
  requires := places ["table_cell"]
  toDocument g n children := one g "table_row" [("header", (n.data.bool? "head").getD false)] children
  toTree _ d children :=
    let n := Node.parent .tableRow children
    pure [if (d.attrs.bool? "header").getD false then n.withData "head" true else n]

def tableCell : Extension := container "table_cell" .tableCell { content := some "inline*" } ["text"]

end RichDoc.Catalog
