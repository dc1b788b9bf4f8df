import RichDoc.Proofs.Catalog.Standard

/-!
# The converters of the standard composition

All node extensions but text convert alike: a `NodeConverter` says what becomes of the content (`Role`), and how
attributes and further data are read off each other. A `MarkConverter` does so for the marks that stand for a node
with children. `upNode_eq`, `downNode_eq`, `upMark_eq` and `downNode_mark` put every one of them in this form;
text and inline code have forms of their own.
-/

namespace RichDoc.Catalog

/-- What becomes of the content of a node. -/
inductive Role where
  /-- It is converted. -/
  | container
  /-- There is none. -/
  | leaf
  /-- Its text is the value of the tree node. -/
  | literal
deriving DecidableEq

namespace Role

def children : Role → List Node → Option (List Node)
  | container, ns => some ns
  | _, _ => none

def value : Role → Document → Option String
  | literal, d => some d.textContent
  | _, _ => none

def content (g : Grammar) (n : Node) (children : List Document) : Role → Conversion (List Document)
  | container => pure children
  | leaf => pure []
  | literal => textOf g n []

end Role

/-- The data with a value more, if there is one. -/
def setSome (data : Data) (k : String) : Option Json → Data
  | some v => data.insert k v
  | none => data

/-- Both converters of a node type. -/
structure NodeConverter where
  type : String
  kind : Kind
  role : Role
  /-- The declared attributes with their defaults. -/
  specs : List (String × Option Json) := []
  attrs : Node → List (String × Json) := fun _ => []
  data : Document → Data := fun _ => ∅

/-- The tree node of a document, for the trees of its content. -/
def NodeConverter.tree (x : NodeConverter) (d : Document) (ns : List Node) : Node :=
  ⟨x.kind, x.role.value d, x.role.children ns, none, x.data d⟩

/-- The node types of the standard composition but text. -/
def nodeConverters : List NodeConverter := [
  { type := "doc", kind := .root, role := .container },
  { type := "paragraph", kind := .paragraph, role := .container },
  { type := "heading", kind := .heading, role := .container, specs := [("level", some (1 : Nat))],
    attrs := fun n => [("level", (n.data.nat? "depth").getD 1)],
    data := fun d => StringMap.insert ∅ "depth" ((d.attrs.nat? "level").getD 1) },
  { type := "blockquote", kind := .blockquote, role := .container },
  { type := "code_block", kind := .code, role := .literal,
    specs := [("language", some .null), ("meta", some .null)],
    attrs := fun n => [("language", orNull (n.data.str? "lang")), ("meta", orNull (n.data.str? "meta"))],
    data := fun d => setSome (setSome ∅ "lang" ((d.attrs.str? "language").map .str)) "meta"
      ((d.attrs.str? "meta").map .str) },
  { type := "horizontal_rule", kind := .thematicBreak, role := .leaf },
  { type := "hard_break", kind := .break, role := .leaf },
  { type := "image", kind := .image, role := .leaf,
    specs := [("alt", some .null), ("src", none), ("title", some .null)],
    attrs := fun n => [("src", (n.data.str? "url").getD ""), ("alt", orNull (n.data.str? "alt")),
      ("title", orNull (n.data.str? "title"))],
    data := fun d => setSome (setSome (StringMap.insert ∅ "url" ((d.attrs.str? "src").getD "")) "alt"
      ((d.attrs.str? "alt").map .str)) "title" ((d.attrs.str? "title").map .str) },
  { type := "list", kind := .list, role := .container,
    specs := [("ordered", some false), ("start", some (1 : Nat))],
    attrs := fun n => [("ordered", (n.data.bool? "ordered").getD false), ("start", (n.data.nat? "start").getD 1)],
    data := fun d => setSome (StringMap.insert ∅ "ordered" ((d.attrs.bool? "ordered").getD false)) "start"
      (if (d.attrs.bool? "ordered").getD false then some ((d.attrs.nat? "start").getD 1 : Nat) else none) },
  { type := "list_item", kind := .listItem, role := .container, specs := [("checked", some .null)],
    attrs := fun n => [("checked", (n.data.bool? "checked").elim .null .bool)],
    data := fun d => setSome ∅ "checked" ((d.attrs.bool? "checked").map .bool) },
  { type := "table", kind := .table, role := .container, specs := [("align", some (.arr []))],
    attrs := fun n => [("align", (n.data.get? "align").getD (.arr []))],
    data := fun d => StringMap.insert ∅ "align" ((d.attrs.get? "align").getD (.arr [])) },
  { type := "table_row", kind := .tableRow, role := .container, specs := [("header", some false)],
    attrs := fun n => [("header", (n.data.bool? "head").getD false)],
    data := fun d => setSome ∅ "head" (if (d.attrs.bool? "header").getD false then some (.bool true) else none) },
  { type := "table_cell", kind := .tableCell, role := .container },
  { type := "html", kind := .html, role := .literal }]

/-- Both converters of a mark type that stands for a node with children. -/
structure MarkConverter where
  type : String
  kind : Kind
  /-- The declared attributes with their defaults. -/
  specs : List (String × Option Json) := []
  attrs : Node → Except ConvertError Data := fun _ => .ok ∅
  data : Mark → Data := fun _ => ∅

/-- The tree node of a mark around trees. -/
def MarkConverter.tree (x : MarkConverter) (m : Mark) (ns : List Node) : Node :=
  ⟨x.kind, none, some ns, none, x.data m⟩

/-- The mark types of the standard composition but inline code. -/
def markConverters : List MarkConverter := [
  { type := "em", kind := .emphasis },
  { type := "strong", kind := .strong },
  { type := "strikethrough", kind := .delete },
  { type := "link", kind := .link, specs := [("href", none), ("title", some .null)],
    attrs := fun n =>
      match n.data.str? "url" with
      | none => .error (.rejected "link" "link without url")
      | some url => .ok (.ofList [("href", .str url), ("title", orNull (n.data.str? "title"))]),
    data := fun m => setSome (StringMap.insert ∅ "url" ((m.attrs.str? "href").getD "")) "title"
      ((m.attrs.str? "title").map .str) }]

variable {x : NodeConverter} {y : MarkConverter} {d : Document} {n : Node} {m : Mark}

theorem withData?_eq (n : Node) (k : String) (v : Option Json) :
    n.withData? k v = ⟨n.kind, n.value, n.children, n.span, setSome n.data k v⟩ := by
  obtain ⟨kind, value, children, span, data⟩ := n
  cases v <;> rfl

theorem nodeType?_converter (hx : x ∈ nodeConverters) :
    x.type ≠ "text" ∧ ∃ t, standardGrammar.nodeType? x.type = some t ∧ t.spec.attrs.entries = x.specs := by
  simp only [nodeConverters, List.mem_cons, List.not_mem_nil, or_false] at hx
  rcases hx with rfl | rfl | rfl | rfl | rfl | rfl | rfl | rfl | rfl | rfl | rfl | rfl | rfl | rfl <;>
    exact ⟨by decide, _, rfl, rfl⟩

theorem upNode_eq (hx : x ∈ nodeConverters) (h : d.type = x.type) (ns : List Node) :
    standard.upNode d ns = pure [x.tree d ns] := by
  unfold Composition.upNode
  rw [h]
  simp only [nodeConverters, List.mem_cons, List.not_mem_nil, or_false] at hx
  rcases hx with rfl | rfl | rfl | rfl | rfl | rfl | rfl | rfl | rfl | rfl | rfl | rfl | rfl | rfl
  · rfl
  · rfl
  · rfl
  · rfl
  · show codeBlock.toTree standardGrammar d ns = _
    simp only [codeBlock, withData?_eq]
    rfl
  · rfl
  · rfl
  · show image.toTree standardGrammar d ns = _
    simp only [image, withData?_eq]
    rfl
  · show list.toTree standardGrammar d ns = _
    simp only [list, NodeConverter.tree]
    split <;> rfl
  · show listItem.toTree standardGrammar d ns = _
    simp only [listItem, withData?_eq]
    rfl
  · rfl
  · show tableRow.toTree standardGrammar d ns = _
    simp only [tableRow, NodeConverter.tree]
    split <;> rfl
  · rfl
  · rfl

theorem downNode_eq (hx : x ∈ nodeConverters) (h : n.kind = x.kind) (cs : List Document) :
    standard.downNode n cs = x.role.content standardGrammar n cs >>= one standardGrammar x.type (x.attrs n) := by
  unfold Composition.downNode
  rw [h]
  simp only [nodeConverters, List.mem_cons, List.not_mem_nil, or_false] at hx
  rcases hx with rfl | rfl | rfl | rfl | rfl | rfl | rfl | rfl | rfl | rfl | rfl | rfl | rfl | rfl
  all_goals rfl

theorem upMark_eq (hy : y ∈ markConverters) (h : m.type = y.type) (ns : List Node) :
    standard.upMark m ns = pure [y.tree m ns] := by
  unfold Composition.upMark
  rw [h]
  simp only [markConverters, List.mem_cons, List.not_mem_nil, or_false] at hy
  rcases hy with rfl | rfl | rfl | rfl
  · rfl
  · rfl
  · rfl
  · show link.wrap standardGrammar m ns = _
    simp only [link, withData?_eq]
    rfl

theorem downNode_mark (hy : y ∈ markConverters) (h : n.kind = y.kind) (cs : List Document) :
    standard.downNode n cs =
      match y.attrs n with
      | .ok as => do markAll standardGrammar (← .ofSchema (standardGrammar.mark y.type as)) cs
      | .error e => .fail e := by
  unfold Composition.downNode
  rw [h]
  simp only [markConverters, List.mem_cons, List.not_mem_nil, or_false] at hy
  rcases hy with rfl | rfl | rfl | rfl
  · rfl
  · rfl
  · rfl
  · show link.toDocument standardGrammar n cs = _
    simp only [link]
    cases n.data.str? "url" <;> rfl

theorem upNode_text (h : d.type = "text") (ns : List Node) :
    standard.upNode d ns = pure [.literal .text (d.text.getD "")] := by
  unfold Composition.upNode
  rw [h]
  rfl

theorem downNode_text (h : n.kind = .text) (cs : List Document) :
    standard.downNode n cs = textOf standardGrammar n [] := by
  unfold Composition.downNode
  rw [h]
  rfl

theorem upMark_code (h : m.type = "code") (ns : List Node) :
    standard.upMark m ns = pure [.literal .inlineCode (Node.textContents ns)] := by
  unfold Composition.upMark
  rw [h]
  rfl

theorem downNode_code (h : n.kind = .inlineCode) (cs : List Document) :
    standard.downNode n cs = if (n.value.getD "").isEmpty then pure [] else
      .ofSchema (standardGrammar.mark "code" ∅) >>= fun m => textOf standardGrammar n [m] := by
  unfold Composition.downNode
  rw [h]
  rfl

end RichDoc.Catalog
