import RichDoc.Catalog.Make

/-! # Inline content

Text, hard breaks, images, and the marks. Inline code is text that carries a mark; on the way back a run of it
becomes one literal, and the marks inside are lost. -/

namespace RichDoc.Catalog

/-- Empty text is left out. -/
def text : Extension where
  name := "text"
  kind := some .text
  type := some "text"
  fragment := some (.node { inline := true, groups := ["inline"] })
  toDocument g n _ := textOf g n []
  toTree _ d _ := pure [.literal .text (d.text.getD "")]

def hardBreak : Extension :=
  { leaf "hard_break" .break { inline := true, groups := ["inline"] } with
    keys := [("Shift-Enter", .insertNode "hard_break"), ("Mod-Enter", .insertNode "hard_break")] }

def image : Extension where
  name := "image"
  kind := some .image
  type := some "image"
  fragment := some <| .node
    { inline := true, atom := true, groups := ["inline"],
      attrs := .ofList [("src", none), ("alt", some .null), ("title", some .null)] }
  toDocument g n _ :=
    one g "image" [("src", (n.data.str? "url").getD ""), ("alt", orNull (n.data.str? "alt")),
      ("title", orNull (n.data.str? "title"))] []
  toTree _ d _ :=
    pure [(((Node.void .image).withData "url" ((d.attrs.str? "src").getD "")).withData? "alt"
      ((d.attrs.str? "alt").map .str)).withData? "title" ((d.attrs.str? "title").map .str)]

def em : Extension := wrapping "em" .emphasis "Mod-i"

def strong : Extension := wrapping "strong" .strong "Mod-b"

def strikethrough : Extension := wrapping "strikethrough" .delete "Mod-Shift-s"

/-- Inline code. -/
def code : Extension where
  name := "code"
  kind := some .inlineCode
  type := some "code"
  fragment := some (.mark { inclusive := false })
  requires := places ["text"]
  toDocument g n _ :=
    if (n.value.getD "").isEmpty then pure [] else do textOf g n [← .ofSchema (g.mark "code" ∅)]
  wrap _ _ inner := pure [.literal .inlineCode (Node.textContents inner)]
  keys := [("Mod-`", .toggleMark "code")]

/-- Links go to a URL, and a node without one is no link. -/
def link : Extension where
  name := "link"
  kind := some .link
  type := some "link"
  fragment := some (.mark { attrs := .ofList [("href", none), ("title", some .null)], inclusive := false })
  toDocument g n children :=
    match n.data.str? "url" with
    | none => .fail (.rejected "link" "link without url")
    | some url => do
      let m ← .ofSchema (g.mark "link" (.ofList [("href", .str url), ("title", orNull (n.data.str? "title"))]))
      markAll g m children
  wrap _ m inner :=
    pure [((Node.parent .link inner).withData "url" ((m.attrs.str? "href").getD "")).withData? "title"
      ((m.attrs.str? "title").map .str)]
  keys := [("Mod-k", .toggleMark "link")]

end RichDoc.Catalog
