import RichDoc.Catalog.Make

/-! # Blocks

Whole documents, paragraphs, headings, quotes, code blocks, rules and lists. -/

namespace RichDoc.Catalog

def doc : Extension := container "doc" .root { content := some "block*" } ["paragraph", "text"]

def paragraph : Extension :=
  container "paragraph" .paragraph { content := some "inline*", groups := ["block"] } ["text"]

/-- Headings have a level, 1 unless the tree says which. -/
def heading : Extension where
  name := "heading"
  kind := some .heading
  type := some "heading"
  fragment := some <| .node
    { content := some "inline*", groups := ["block"], defining := true,
      attrs := .ofList [("level", some (1 : Nat))] }
  requires := places ["text"]
  toDocument g n children := one g "heading" [("level", (n.data.nat? "depth").getD 1)] children
  toTree _ d children :=
    pure [(Node.parent .heading children).withData "depth" ((d.attrs.nat? "level").getD 1)]
  rules := [.pattern "^(#\x7b1,6\x7d)\\s$" "heading"]

def blockquote : Extension :=
  { container "blockquote" .blockquote { content := some "block*", groups := ["block"], defining := true }
      ["paragraph"] with
    rules := [.pattern "^\\s*>\\s$" "blockquote"] }

/-- Code blocks hold plain text. -/
def codeBlock : Extension where
  name := "code_block"
  kind := some .code
  type := some "code_block"
  fragment := some <| .node
    { content := some "text*", groups := ["block"], code := true, defining := true, marks := .none,
      attrs := .ofList [("language", some .null), ("meta", some .null)] }
  requires := places ["text"]
  toDocument g n _ := do
    one g "code_block" [("language", orNull (n.data.str? "lang")), ("meta", orNull (n.data.str? "meta"))]
      (← textOf g n [])
  toTree _ d _ :=
    pure [((Node.literal .code d.textContent).withData? "lang" ((d.attrs.str? "language").map .str)).withData?
      "meta" ((d.attrs.str? "meta").map .str)]
  rules := [.pattern "^```([a-z]*)?\\s$" "code_block"]

def horizontalRule : Extension :=
  { leaf "horizontal_rule" .thematicBreak { groups := ["block"] } with
    rules := [.pattern "^(?:---|\\*\\*\\*|___)$" "horizontal_rule"] }

/-- Lists are numbered from `start` on if they are ordered. -/
def list : Extension where
  name := "list"
  kind := some .list
  type := some "list"
  fragment := some <| .node
    { content := some "list_item+", groups := ["block"],
      attrs := .ofList [("ordered", some false), ("start", some (1 : Nat))] }
  requires := places ["list_item"]
  toDocument g n children :=
    one g "list" [("ordered", (n.data.bool? "ordered").getD false), ("start", (n.data.nat? "start").getD 1)]
      children
  toTree _ d children :=
    let ordered := (d.attrs.bool? "ordered").getD false
    let n := (Node.parent .list children).withData "ordered" ordered
    pure [if ordered then n.withData "start" ((d.attrs.nat? "start").getD 1) else n]
  rules := [.pattern "^\\s*([-+*])\\s$" "list", .pattern "^(\\d+)\\.\\s$" "list"]

/-- Items that are tasks are checked or not; all others have null there. -/
def listItem : Extension where
  name := "list_item"
  kind := some .listItem
  type := some "list_item"
  fragment := some <| .node
    { content := some "block*", defining := true, attrs := .ofList [("checked", some .null)] }
  requires := places ["paragraph"]
  toDocument g n children :=
    one g "list_item" [("checked", (n.data.bool? "checked").elim .null .bool)] children
  toTree _ d children :=
    pure [(Node.parent .listItem children).withData? "checked" ((d.attrs.bool? "checked").map .bool)]

end RichDoc.Catalog
