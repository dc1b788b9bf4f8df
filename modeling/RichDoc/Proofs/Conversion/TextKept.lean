import RichDoc.Proofs.Catalog.Phrasing
import RichDoc.Proofs.Conversion.Loading

/-!
# The text of what is converted

A tree whose values stand in literals has the text of its document (`textContents_of_gives`), and every document that
the grammar makes has a tree with its text (`up_textContent`), whichever way its marks are opened: a nest and the
node that it becomes have the text of the siblings of the nest (`render_textContent`).
-/

namespace RichDoc

/-- The kinds of nodes whose value is text. -/
def Kind.isLiteral : Kind → Bool
  | .text | .html | .code | .inlineCode => true
  | _ => false

theorem Kind.isLeaf_of_isLiteral {k : Kind} (h : k.isLiteral) : k.isLeaf := by
  cases k <;> simp_all [isLiteral, isLeaf]

/-- Only literals have a value, and no leaf has children. -/
structure Node.Worded (n : Node) : Prop where
  value : n.value.isSome → n.kind.isLiteral
  childless : n.kind.isLeaf → n.childList = []

instance : DecidablePred Node.Worded := fun n =>
  decidable_of_iff ((n.value.isSome → n.kind.isLiteral) ∧ (n.kind.isLeaf → n.childList = []))
    ⟨fun ⟨h₁, h₂⟩ => ⟨h₁, h₂⟩, fun ⟨h₁, h₂⟩ => ⟨h₁, h₂⟩⟩

theorem Node.Worded.getD_value {n : Node} (h : n.Worded) (hn : ¬ n.kind.isLiteral) : n.value.getD "" = "" := by
  have hnone : n.value = none := Option.not_isSome_iff_eq_none.1 fun hv => hn (h.value hv)
  rw [hnone]
  rfl

namespace Document

theorem textContents_append (ds es : List Document) :
    textContents (ds ++ es) = textContents ds ++ textContents es := by
  induction ds with
  | nil => simp [textContents]
  | cons d r ih => rw [List.cons_append, textContents, textContents, ih, String.append_assoc]

theorem textContents_singleton (d : Document) : textContents [d] = d.textContent := by
  simp [textContents]

theorem textContents_map_withMark (g : Grammar) (m : Mark) (ds : List Document) :
    textContents (ds.map (g.withMark m)) = textContents ds := by
  induction ds with
  | nil => rfl
  | cons d r ih =>
    have hd : (g.withMark m d).textContent = d.textContent := by
      rw [textContent_eq, textContent_eq, Grammar.withMark]
    rw [List.map_cons, textContents, textContents, hd, ih]

/-- Trees that have the texts of documents one by one have them as a row. -/
theorem textContents_row {ns : List Node} {dss : List (List Document)}
    (h : List.Forall₂ (fun n ds => n.textContent = textContents ds) ns dss) :
    Node.textContents ns = textContents dss.flatten := by
  induction h with
  | nil => rfl
  | cons hd _ ih => rw [Node.textContents, List.flatten_cons, textContents_append, hd, ih]

theorem textContents_docsBelow {g : Grammar} {xs : List Nest} {ns : List Node}
    (h : List.Forall₂ (fun x n => n.textContent = textContents (x.docs g)) xs ns) :
    Node.textContents ns = textContents (Nest.docsBelow g xs) := by
  rw [Nest.docsBelow_eq]
  exact textContents_row (List.forall₂_map_right_iff.2 h.flip)

end Document

namespace Catalog
open Document Conversion

variable {x : NodeConverter} {y : MarkConverter} {d e : Document} {n : Node} {cs ds content : List Document}
  {given : Data}

theorem isLiteral_iff (hx : x ∈ nodeConverters) : x.kind.isLiteral ↔ x.role = .literal := by
  have hall : ∀ x ∈ nodeConverters, x.kind.isLiteral ↔ x.role = .literal := by
    simp [nodeConverters, Kind.isLiteral]
  exact hall x hx

theorem textContent_of_node {ty : String} (h : standardGrammar.node ty given content = .ok e) :
    e.textContent = textContents content := by
  obtain ⟨t, a, -, -, -, -, -, rfl⟩ := Grammar.node_eq_ok.1 h
  rw [textContent_eq]
  rfl

theorem textContents_of_takes (hn : n.Worded) (hx : x ∈ nodeConverters) (hk : x.kind = n.kind)
    (h : Takes n cs x.role content) (hcs : textContents cs = Node.textContents n.childList) :
    textContents content = n.textContent := by
  have hliteral := isLiteral_iff hx
  have hleaf := isLeaf_iff hx
  rw [hk] at hliteral hleaf
  rw [Node.textContent_eq]
  generalize x.role = r at h hliteral hleaf
  cases h with
  | container => rw [hn.getD_value (by simp [hliteral]), String.empty_append, hcs]
  | leaf =>
    rw [hn.getD_value (by simp [hliteral]), hn.childless (hleaf.2 (by simp))]
    rfl
  | empty hv =>
    rw [hv, hn.childless (hleaf.2 (by simp))]
    rfl
  | literal hv hv' =>
    rw [hv', hn.childless (hleaf.2 (by simp))]
    simp [textContents, textContent, Grammar.plain, Node.textContents]

theorem textContents_of_loads (hn : n.Worded) (h : Loads n cs ds)
    (hcs : textContents cs = Node.textContents n.childList) : textContents ds = n.textContent := by
  -- text and inline code have no children, so their value is all of their text
  have hvalue (hk : n.kind = .text ∨ n.kind = .inlineCode) : n.textContent = n.value.getD "" := by
    have hchildless : n.childList = [] := hn.childless (by rcases hk with hk | hk <;> rw [hk] <;> rfl)
    rw [Node.textContent_eq, hchildless, Node.textContents, String.append_empty]
  cases h with
  | node hx hk hc h => rw [textContents_singleton, textContent_of_node h, textContents_of_takes hn hx hk hc hcs]
  | mark hy hk has h =>
    have hno : ¬ n.kind.isLiteral := fun hl => not_isLeaf hy (hk ▸ Kind.isLeaf_of_isLiteral hl)
    rw [textContents_map_withMark, hcs, Node.textContent_eq, hn.getD_value hno, String.empty_append]
  | empty hk hv =>
    rw [hvalue hk, hv]
    rfl
  | text hk hv hv' =>
    rw [hvalue (.inl hk), hv', textContents_singleton]
    rfl
  | @code v m hk hv hv' hm =>
    rw [hvalue (.inr hk), hv', ← List.map_singleton, textContents_map_withMark, textContents_singleton]
    rfl

/-- All that is loaded from a tree has its text. -/
theorem textContents_of_gives (hn : ∀ e ∈ n.nodes, e.Worded) (h : Gives (standard.down n) ds) :
    textContents ds = n.textContent := by
  induction n using Node.induct generalizing ds with
  | step n ih =>
    obtain ⟨hself, hchildren⟩ := Node.forall_nodes.1 hn
    obtain ⟨cs, hcs, hnode⟩ := Composition.gives_down h
    obtain ⟨dss, rfl, hdss⟩ := Composition.gives_downList hcs
    have hkept : ∀ k ∈ n.childList, ∀ es, Gives (standard.down k) es → k.textContent = textContents es :=
      fun k hk es hes => (ih k hk (hchildren k hk) hes).symm
    refine textContents_of_loads hself (loads_of_gives hnode) (textContents_row ?_).symm
    exact ((List.forall₂_and_left _ _).2 ⟨hkept, hdss⟩).imp fun k es h => h.1 es h.2

theorem render_textContent {x : Nest}
    (h : x.Forall (fun e => (∃ n, standard.up e = pure [n] ∧ n.textContent = e.textContent) ∧ e.marks = []) MadeOpened) :
    ∃ n, standard.render x = pure [n] ∧ n.textContent = textContents (x.docs standardGrammar) := by
  induction h with
  | leaf h =>
    obtain ⟨⟨n, hup, htext⟩, -⟩ := h
    exact ⟨n, hup, htext.trans (textContents_singleton _).symm⟩
  | @under m inner h hi ih =>
    obtain ⟨ns, hrow, htexts⟩ := Composition.renderRow_eq ih
    rw [Nest.docs_under, textContents_map_withMark, ← textContents_docsBelow htexts]
    rcases markType_of_mark h.1 with hc | ⟨y, hy, hym⟩
    · -- inline code: the text of all that stands below is the value
      exact ⟨_, render_code hc hrow, by simp [Node.textContent_eq, Node.literal, Node.childList, Node.textContents]⟩
    · exact ⟨_, render_mark hy hym hrow, by simp [Node.textContent_eq, MarkConverter.tree, Node.childList]⟩

theorem up_textContent (hs : ∀ e ∈ d.nodes, standardGrammar.Sound e) :
    ∃ n, standard.up d = pure [n] ∧ n.textContent = d.textContent := by
  induction d using Document.induct with
  | step d ih =>
    obtain ⟨hsd, hs⟩ := forall_nodes.1 hs
    have hcontent : ∀ e ∈ d.content, standardGrammar.Sound e := fun e he => hs e he e (self_mem_nodes e)
    have hnests := forall_group_sound (P := fun e => ∃ n, standard.up e = pure [n] ∧ n.textContent = e.textContent)
      hcontent fun e he => by
        obtain ⟨n, hn, htext⟩ := ih e he (hs e he)
        exact ⟨n, by rw [Composition.up_bare markBlind_standard, hn], htext.trans (textContent_bare e).symm⟩
    obtain ⟨ns, hrow, htexts⟩ := Composition.renderRow_eq fun x hx => render_textContent (hnests x hx)
    have htext : Node.textContents ns = textContents d.content := by
      rw [textContents_docsBelow htexts, Nest.docs_group d.content fun e he => (hcontent e he).marks]
    rcases hsd.body with ⟨v, -, -, hd⟩ | hnode
    · have htype : d.type = "text" := congrArg Document.type hd
      have hv : d.text = some v := congrArg Document.text hd
      refine ⟨_, up_text htype hrow, ?_⟩
      simp [Node.textContent_eq, Node.literal, Node.childList, Node.textContents, textContent_eq, hv]
    · obtain ⟨x, hx, hxd⟩ := exists_nodeConverter_of_node hnode
      refine ⟨_, up_node hx hxd hrow, ?_⟩
      rw [← textContent_bare, textContent_of_node hnode, Node.textContent_eq]
      rw [← hxd] at hnode
      cases hr : x.role with
      | container => simp [NodeConverter.tree, Node.childList, hr, Role.value, Role.children, htext]
      | leaf =>
        rw [content_of_leaf hx hr hnode]
        simp [NodeConverter.tree, Node.childList, hr, Role.value, Role.children, Node.textContents, textContents]
      | literal =>
        rw [value_tree hr hnode]
        simp [NodeConverter.tree, Node.childList, hr, Role.children, Node.textContents]

/-- Both conversions of whole documents keep the text, and the one to trees fails for no made document. -/
theorem textContent_kept {c : Composition} (hc : library.compose (places ["gfm", "html"]) = .ok c) :
    (∀ (t : Node) (d : Document), (∀ e ∈ t.nodes, e.Worded) → c.documentOf t = .ok d →
      d.textContent = t.textContent) ∧
    ∀ d : Document, c.grammar.Makes d → d.type = "doc" →
      ∃ t, c.treeOf d = .ok t ∧ t.textContent = d.textContent := by
  obtain rfl : standard = c := Except.ok.inj (compose_standard.symm.trans hc)
  constructor
  · intro t d ht hd
    rw [← textContents_singleton, textContents_of_gives ht (Composition.gives_of_documentOf hd).1]
  · intro d hd htype
    have hs := hd.sound ranked_standard
    obtain ⟨t, hup, ht⟩ := treeOf_sound hs htype
    obtain ⟨n, hn, htext⟩ := up_textContent hs
    obtain rfl := eq_of_pure_singleton hup hn
    exact ⟨t, ht, htext⟩

/-- A tree with a text that is left out, a literal among text and one that is a block. -/
def leaflet : Node := .parent .root [
  .parent .paragraph [
    .literal .text "a", .literal .text "",
    .parent .emphasis [.literal .inlineCode "b", .void .break], .literal .html "<br>"],
  .literal .code "c"]

/-- A document with inline code around a break and across emphasis, and a code block whose language is a number. -/
def scrawl : Document :=
  ⟨"doc", ∅, [
    ⟨"paragraph", ∅, [
      ⟨"text", ∅, [], some "a", [⟨"em", ∅⟩, ⟨"code", ∅⟩]⟩,
      ⟨"hard_break", ∅, [], none, [⟨"code", ∅⟩]⟩,
      ⟨"text", ∅, [], some "b", [⟨"code", ∅⟩, ⟨"strikethrough", ∅⟩]⟩], none, []⟩,
    ⟨"code_block", .ofList [("language", .int 3), ("meta", .null)], [
      ⟨"text", ∅, [], some "c", []⟩, ⟨"text", ∅, [], some "d", []⟩], none, []⟩], none, []⟩

theorem textContent_leaflet_and_scrawl :
    (∃ d, standard.documentOf leaflet = .ok d ∧ d.textContent = "ab<br>c") ∧
      ∃ t, standard.treeOf scrawl = .ok t ∧ t.textContent = "abcd" := by
  obtain ⟨hdown, hup⟩ := textContent_kept compose_standard
  constructor
  · obtain ⟨d, hd⟩ : ∃ d, standard.documentOf leaflet = .ok d := exists_of_toBool (by decide +kernel)
    exact ⟨d, hd, hdown leaflet d (by decide) hd⟩
  · exact hup scrawl (Grammar.makes_of_sound (by decide +kernel)) rfl

end Catalog
end RichDoc
