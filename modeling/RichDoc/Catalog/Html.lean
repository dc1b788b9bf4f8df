import RichDoc.Catalog.Make
import RichDoc.Html.Pairing
import RichDoc.Html.Rooting

/-! # HTML

Raw HTML stands in a line of text as one piece whose content is its source. The extension brings the pairing of
tags, and unless it is switched off the wrapping of literals outside of text. -/

namespace RichDoc.Catalog
open Html

def pairingTransform (o : Options) : Transform := ⟨"html-reconcile", fun n => (reconcile o n).mapError .fragment⟩

def rootingTransform : Transform := ⟨"root-html-fixup", fun n => .ok (wrapStray n)⟩

def html (o : Options) : Extension where
  name := "html"
  kind := some .html
  type := some "html"
  fragment := some (.node
    { content := some "text*", inline := true, atom := true, groups := ["inline"], marks := .none })
  requires := places ["text"]
  toDocument g n _ := do one g "html" [] (← textOf g n [])
  toTree _ d _ := pure [.literal .html d.textContent]
  transforms := pairingTransform o :: if o.rooting then [rootingTransform] else []

end RichDoc.Catalog
