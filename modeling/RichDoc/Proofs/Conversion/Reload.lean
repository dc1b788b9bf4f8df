import RichDoc.Proofs.Catalog.Attributes
import RichDoc.Proofs.Catalog.Types
import RichDoc.Proofs.Conversion.Rendering
import RichDoc.Proofs.Conversion.Runs
import RichDoc.Proofs.Conversion.Steady

/-!
# From documents to trees and back

A document becomes one tree node (`up_sound`), and where it is `Expressible` and each inline code stands for a
single text (`Nest.CodeSingle`), that node becomes the document again (`down_up`). The nests of the siblings carry
the proof: a nest becomes a tree that becomes the siblings of the nest.
-/

namespace RichDoc

/-- What stands under inline code is a single document without further marks. -/
def Nest.CodeSingle (x : Nest) : Prop :=
  x.Forall (fun _ => True) fun m inner => m.type = "code" → ∃ d, inner = [.leaf d]

namespace Catalog
open Document

/-- What a tree can say of a node: attributes of the types that converters expect, one text at most in a literal,
inline code on text only. -/
structure Expressible (d : Document) : Prop where
  attrs : Typed nodeForms d.type d.attrs
  numbered : Numbered d
  literal : d.type = "code_block" ∨ d.type = "html" → d.content.length ≤ 1
  marks : ∀ m ∈ d.marks, Typed markForms m.type m.attrs
  code : ∀ m ∈ d.marks, m.type = "code" → d.type = "text"

instance : DecidablePred Expressible := fun d =>
  decidable_of_iff (Typed nodeForms d.type d.attrs ∧ Numbered d ∧
    (d.type = "code_block" ∨ d.type = "html" → d.content.length ≤ 1) ∧
    (∀ m ∈ d.marks, Typed markForms m.type m.attrs) ∧ ∀ m ∈ d.marks, m.type = "code" → d.type = "text")
    ⟨fun ⟨h₁, h₂, h₃, h₄, h₅⟩ => ⟨h₁, h₂, h₃, h₄, h₅⟩, fun ⟨h₁, h₂, h₃, h₄, h₅⟩ => ⟨h₁, h₂, h₃, h₄, h₅⟩⟩

/-- Each inline code of the document and all below it stands for a single text. -/
def KeepsCode (d : Document) : Prop := ∀ e ∈ d.nodes, ∀ x ∈ group e.content, x.CodeSingle

/-- Conversions that nodes without marks of their own come back from. -/
def Returns (d : Document) : Prop := ∃ n, standard.up d = pure [n] ∧ standard.down n = pure [d]

variable {x : NodeConverter} {d e : Document} {m : Mark} {n : Node} {v : String}

theorem keepsCode_iff : KeepsCode d ↔ (∀ x ∈ group d.content, x.CodeSingle) ∧ ∀ e ∈ d.content, KeepsCode e :=
  forall_nodes (P := fun e => ∀ x ∈ group e.content, x.CodeSingle)

theorem markBlind_standard : standard.MarkBlind := by
  rintro ⟨ty, as, cs, t, ms⟩ ns
  unfold Composition.upNode
  cases he : standard.ofType? ty with
  | none => simp [bare, he]
  | some e =>
    have hmem : e ∈ standardExtensions := by
      rw [standard, Composition.ofType?_of] at he
      exact List.mem_of_find?_eq_some he
    have hall : ∀ e ∈ standardExtensions, e.toTree standard.grammar ⟨ty, as, cs, t, []⟩ ns =
        e.toTree standard.grammar ⟨ty, as, cs, t, ms⟩ ns := by
      simp only [standardExtensions, List.forall_mem_cons]
      and_intros
      all_goals first | rfl | simp
    simpa [bare, he] using hall e hmem

theorem downList_append (c : Composition) (ms ns : List Node) :
    c.downList (ms ++ ns) = do return (← c.downList ms) ++ (← c.downList ns) := by
  induction ms with
  | nil => simp [Composition.downList]
  | cons m r ih => simp only [List.cons_append, Composition.downList, ih, bind_assoc, pure_bind, List.append_assoc]

theorem down_none (c : Composition) (h : n.children = none) : c.down n = c.downNode n [] := by
  obtain ⟨k, v, cs, p, as⟩ := n
  cases h
  simp [Composition.down, Composition.downList?]

theorem down_some (c : Composition) {ns : List Node} (h : n.children = some ns) :
    c.down n = c.downList ns >>= c.downNode n := by
  obtain ⟨k, v, cs, p, as⟩ := n
  cases h
  simp [Composition.down, Composition.downList?]

theorem markAll_eq {g : Grammar} (h : g.mark m.type m.attrs = .ok m) (ds : List Document) :
    markAll g m ds = pure (ds.map (g.withMark m)) := by
  have hone : ∀ d, Conversion.ofSchema (g.addMark d m) = pure (g.withMark m d) := fun d => by
    rw [Grammar.addMark_of_makesMark ⟨_, _, h⟩]
    rfl
  unfold markAll
  rw [funext hone]
  induction ds with
  | nil => rfl
  | cons d r ih => rw [List.mapM_cons, ih, pure_bind, pure_bind, List.map_cons]

theorem plain_of_sound (h : standardGrammar.Sound d) (ht : d.type = "text") : ∃ v, v ≠ "" ∧ d.bare = Grammar.plain v := by
  rcases h.body with ⟨v, hv, -, hd⟩ | h
  · exact ⟨v, hv, hd⟩
  · obtain ⟨t, a, -, hne, -⟩ := Grammar.node_eq_ok.1 h
    exact absurd ht hne

/-- A mark as the grammar makes it, with attributes as converters expect them, on a document that may carry it. -/
structure Markable (m : Mark) (d : Document) : Prop where
  mark : standardGrammar.mark m.type m.attrs = .ok m
  typed : Typed markForms m.type m.attrs
  code : m.type = "code" → d.type = "text"

theorem exists_nodeConverter_of_node {ty : String} {as : Data} {ds : List Document}
    (h : standardGrammar.node ty as ds = .ok d) : ∃ x ∈ nodeConverters, x.type = ty := by
  obtain ⟨t, a, ht, hne, -⟩ := Grammar.node_eq_ok.1 h
  exact exists_nodeConverter ht hne

theorem markType_of_mark (h : standardGrammar.mark m.type m.attrs = .ok m) :
    m.type = "code" ∨ ∃ y ∈ markConverters, y.type = m.type := by
  obtain ⟨t, a, ht, -, -⟩ := Grammar.mark_eq_ok.1 h
  exact markType_cases ht

theorem code_of_mark (h : standardGrammar.mark m.type m.attrs = .ok m) (hm : m.type = "code") :
    standardGrammar.mark "code" ∅ = .ok m := by
  obtain ⟨t, a, ht, ha, hb⟩ := Grammar.mark_eq_ok.1 h
  rw [hm] at ht hb
  cases ht
  cases ha
  exact Grammar.mark_eq_ok.2 ⟨_, _, rfl, rfl, hb⟩

theorem downList_row {c : Composition} {g : Grammar} {xs : List Nest} {ns : List Node}
    (h : List.Forall₂ (fun x n => c.down n = pure (x.docs g)) xs ns) : c.downList ns = pure (Nest.docsBelow g xs) := by
  induction h with
  | nil => rfl
  | cons hx _ ih => simp [Composition.downList, hx, ih, Nest.docsBelow]

theorem render_code {inner : List Nest} {ns : List Node} (hm : m.type = "code")
    (h : standard.renderRow inner = pure ns) :
    standard.render (.under m inner) = pure [.literal .inlineCode (Node.textContents ns)] := by
  simp only [Composition.render, h, pure_bind, upMark_code hm]

theorem render_mark {y : MarkConverter} {inner : List Nest} {ns : List Node} (hy : y ∈ markConverters)
    (hm : y.type = m.type) (h : standard.renderRow inner = pure ns) :
    standard.render (.under m inner) = pure [y.tree m ns] := by
  simp only [Composition.render, h, pure_bind, upMark_eq hy hm.symm]

theorem textOf_plain {g : Grammar} (hg : (g.nodeType? "text").isSome) (hv : v ≠ "") (hn : n.value = some v)
    {ms : List Mark} (hms : ∀ m ∈ ms, g.MakesMark m) :
    textOf g n ms = pure [ms.foldl (fun d m => g.withMark m d) (Grammar.plain v)] := by
  have hne : v.isEmpty = false := by simpa using hv
  have htext := (Grammar.text_eq_ok fun m hm => (hms m hm).known).2 ⟨hg, hv, rfl⟩
  simp [textOf, hn, hne, htext, Conversion.ofSchema]

theorem up_plain (v : String) : standard.up (Grammar.plain v) = pure [.literal .text v] := by
  rw [Composition.up_eq markBlind_standard]
  simp [Grammar.plain, Composition.renderRow, upNode_text]

theorem down_plain (hv : v ≠ "") : standard.down (.literal .text v) = pure [Grammar.plain v] := by
  rw [down_none _ rfl, downNode_text rfl]
  exact textOf_plain (by rfl) hv rfl (by simp)

/-- A nest becomes a tree that becomes the siblings of the nest. -/
theorem render_returns {x : Nest}
    (h : x.Forall (fun e => Returns e ∧ (e.type = "text" → ∃ v, v ≠ "" ∧ e = Grammar.plain v)) fun m inner =>
      (Nest.docsBelow standardGrammar inner ≠ [] ∧ ∀ d ∈ Nest.docsBelow standardGrammar inner, Markable m d.bare) ∧
        (m.type = "code" → ∃ d, inner = [.leaf d])) :
    ∃ n, standard.render x = pure [n] ∧ standard.down n = pure (x.docs standardGrammar) := by
  induction h with
  | leaf h =>
    obtain ⟨⟨n, hup, hdown⟩, -⟩ := h
    exact ⟨n, hup, hdown⟩
  | @under m inner h hi ih =>
    obtain ⟨⟨hne, hmark⟩, hcode⟩ := h
    obtain ⟨d₀, hd₀⟩ := List.exists_mem_of_ne_nil _ hne
    have hm := hmark d₀ hd₀
    obtain ⟨ns, hrow, hback⟩ := Composition.renderRow_eq ih
    have hback := downList_row hback
    rcases markType_of_mark hm.mark with hc | ⟨y, hy, hym⟩
    · -- inline code: the text below is the value, and the mark is made anew
      obtain ⟨d, rfl⟩ := hcode hc
      cases hi _ (List.mem_singleton.2 rfl) with
      | leaf hd =>
        obtain ⟨v, hv, rfl⟩ := hd.2 ((hmark d (by simp [Nest.docsBelow, Nest.docs])).code hc)
        have hcode := code_of_mark hm.mark hc
        refine ⟨.literal .inlineCode v, ?_, ?_⟩
        · have hrow : standard.renderRow [.leaf (Grammar.plain v)] = pure [.literal .text v] := by
            simp [Composition.renderRow, Composition.render, up_plain]
          rw [render_code hc hrow]
          simp [Node.textContents, Node.textContent, Node.textContents?, Node.literal]
        · have hne : v.isEmpty = false := by simpa using hv
          rw [down_none _ rfl, downNode_code rfl]
          simp only [Node.literal, Option.getD_some, hne, Bool.false_eq_true, if_false, hcode, Conversion.ofSchema,
            pure_bind]
          rw [textOf_plain (by rfl) hv rfl (by simpa using ⟨_, _, hm.mark⟩)]
          rfl
    · refine ⟨y.tree m ns, render_mark hy hym hrow, ?_⟩
      have hattrs := attrs_tree hy hym.symm hm.mark hm.typed ns
      rw [down_some _ rfl, hback, pure_bind, downNode_mark hy rfl, hattrs, hym]
      simp only [hm.mark, Conversion.ofSchema, pure_bind, markAll_eq hm.mark, Nest.docs]

/-- A mark that the grammar makes, rightly opened around a row. -/
def MadeOpened (m : Mark) (inner : List Nest) : Prop :=
  standardGrammar.mark m.type m.attrs = .ok m ∧ Nest.Opened standardGrammar m inner

/-- What holds of made siblings, their own marks aside, holds all over their nests. -/
theorem forall_group_sound {P : Document → Prop} {ds : List Document} (hs : ∀ d ∈ ds, standardGrammar.Sound d)
    (hP : ∀ d ∈ ds, P d.bare) : ∀ x ∈ group ds, x.Forall (fun e => P e ∧ e.marks = []) MadeOpened := by
  have hrank : ∀ d ∈ ds, standardGrammar.InRank d.marks := fun d hd => (hs d hd).marks
  have hmade := Nest.forall_group (g := standardGrammar) (R := fun m _ => standardGrammar.mark m.type m.attrs = .ok m)
    ds hrank hP fun d hd => (hs d hd).mark
  intro x hx
  refine ((hmade x hx).and ((Nest.steady_group ds hrank).nests x hx)).imp (fun _ h => h) fun m inner ⟨h, hopen⟩ => ?_
  obtain ⟨d, hd⟩ := List.exists_mem_of_ne_nil _ h.1
  exact ⟨h.2 d hd, hopen⟩

theorem render_sound {x : Nest} (h : x.Forall (fun e => (∃ n, standard.up e = pure [n]) ∧ e.marks = []) MadeOpened) :
    ∃ n, standard.render x = pure [n] := by
  induction h with
  | leaf h => exact h.1
  | @under m inner h hi ih =>
    obtain ⟨ns, hrow, -⟩ := Composition.renderRow_eq (S := fun _ _ => True) fun x hx =>
      (ih x hx).imp fun _ h => ⟨h, trivial⟩
    rcases markType_of_mark h.1 with hc | ⟨y, hy, hym⟩
    · exact ⟨_, render_code hc hrow⟩
    · exact ⟨_, render_mark hy hym hrow⟩

theorem up_text {ns : List Node} (h : d.type = "text") (hrow : standard.renderRow (group d.content) = pure ns) :
    standard.up d = pure [.literal .text (d.text.getD "")] := by
  rw [Composition.up_eq markBlind_standard, hrow, pure_bind, upNode_text h]

theorem up_node {ns : List Node} (hx : x ∈ nodeConverters) (h : x.type = d.type)
    (hrow : standard.renderRow (group d.content) = pure ns) : standard.up d = pure [x.tree d ns] := by
  rw [Composition.up_eq markBlind_standard, hrow, pure_bind, upNode_eq hx h.symm]

/-- A document becomes one tree node, of the kind that goes with its type. -/
theorem up_sound (hs : ∀ e ∈ d.nodes, standardGrammar.Sound e) : ∃ n, standard.up d = pure [n] ∧
    (d.type = "text" ∧ n.kind = .text ∨ ∃ x ∈ nodeConverters, x.type = d.type ∧ x.kind = n.kind) := by
  induction d using Document.induct with
  | step d ih =>
    obtain ⟨hsd, hs⟩ := forall_nodes.1 hs
    have hnests := forall_group_sound (P := fun e => ∃ n, standard.up e = pure [n])
      (fun e he => hs e he e (self_mem_nodes e)) fun e he => by
        obtain ⟨n, hn, -⟩ := ih e he (hs e he)
        exact ⟨n, by rw [Composition.up_bare markBlind_standard, hn]⟩
    obtain ⟨ns, hrow, -⟩ := Composition.renderRow_eq (S := fun _ _ => True) fun x hx =>
      (render_sound (hnests x hx)).imp fun _ h => ⟨h, trivial⟩
    rcases hsd.body with ⟨v, -, -, hd⟩ | hnode
    · have htype : d.type = "text" := congrArg Document.type hd
      exact ⟨_, up_text htype hrow, .inl ⟨htype, rfl⟩⟩
    · obtain ⟨x, hx, hxd⟩ := exists_nodeConverter_of_node hnode
      exact ⟨_, up_node hx hxd hrow, .inr ⟨x, hx, hxd, rfl⟩⟩

/-- Siblings that come back one by one come back as a row. -/
theorem renderRow_returns {ds : List Document} (hs : ∀ d ∈ ds, standardGrammar.Sound d) (he : ∀ d ∈ ds, Expressible d)
    (hc : ∀ x ∈ group ds, x.CodeSingle) (h : ∀ d ∈ ds, Returns d.bare) :
    ∃ ns, standard.renderRow (group ds) = pure ns ∧ standard.downList ns = pure ds := by
  have hrank : ∀ d ∈ ds, standardGrammar.InRank d.marks := fun d hd => (hs d hd).marks
  have hnests := Nest.forall_group (g := standardGrammar) (R := Markable)
    (P := fun e => Returns e ∧ (e.type = "text" → ∃ v, v ≠ "" ∧ e = Grammar.plain v)) ds hrank
    (fun d hd => ⟨h d hd, fun ht => plain_of_sound (hs d hd) ht⟩)
    (fun d hd m hm => ⟨(hs d hd).mark m hm, (he d hd).marks m hm, (he d hd).code m hm⟩)
  obtain ⟨ns, hrow, hback⟩ := Composition.renderRow_eq fun x hx =>
    render_returns (((hnests x hx).and (hc x hx)).imp (fun _ hd => hd.1) fun _ _ hm => hm)
  refine ⟨ns, hrow, ?_⟩
  rw [downList_row hback, Nest.docs_group ds hrank]

theorem content_eq_plain {ds : List Document} (hs : ∀ d ∈ ds, standardGrammar.Sound d)
    (h : ∀ d ∈ ds, d.type = "text" ∧ d.marks = []) (hlen : ds.length ≤ 1) :
    ds = [] ∨ ∃ v, v ≠ "" ∧ ds = [Grammar.plain v] := by
  match ds, hlen with
  | [], _ => exact .inl rfl
  | [d], _ =>
    obtain ⟨ht, hm⟩ := h d (by simp)
    obtain ⟨v, hv, hd⟩ := plain_of_sound (hs d (by simp)) ht
    rw [bare_eq hm] at hd
    exact .inr ⟨v, hv, by rw [hd]⟩

theorem value_tree (hr : x.role = .literal) (h : standardGrammar.node x.type d.attrs d.content = .ok d.bare)
    (ns : List Node) : (x.tree d ns).value = some (textContents d.content) := by
  obtain ⟨t, a, -, -, -, -, -, hb⟩ := Grammar.node_eq_ok.1 h
  have htext : d.text = none := congrArg Document.text hb
  simp only [NodeConverter.tree, hr, Role.value, textContent_eq, htext, Option.getD_none]

/-- A document comes back without its own marks. -/
theorem down_up (hs : ∀ e ∈ d.nodes, standardGrammar.Sound e) (he : ∀ e ∈ d.nodes, Expressible e)
    (hc : KeepsCode d) : Returns d.bare := by
  induction d using Document.induct with
  | step d ih =>
    obtain ⟨hsd, hs⟩ := forall_nodes.1 hs
    obtain ⟨hed, he⟩ := forall_nodes.1 he
    obtain ⟨hcd, hc⟩ := keepsCode_iff.1 hc
    obtain ⟨ns, hrow, hback⟩ := renderRow_returns (fun e h => hs e h e (self_mem_nodes e))
      (fun e h => he e h e (self_mem_nodes e)) hcd fun e h => ih e h (hs e h) (he e h) (hc e h)
    rcases hsd.body with ⟨v, hv, -, hd⟩ | hnode
    · rw [hd]
      exact ⟨_, up_plain v, down_plain hv⟩
    · have htype : d.type ≠ "text" := by
        obtain ⟨t, a, -, hne, -⟩ := Grammar.node_eq_ok.1 hnode
        exact hne
      obtain ⟨x, hx, hxd⟩ := exists_nodeConverter_of_node hnode
      have hof := ofList_attrs_tree hx hxd.symm hnode hed.attrs hed.numbered ns
      have hone : one standardGrammar x.type (x.attrs (x.tree d ns)) d.content = pure [d.bare] := by
        simp only [one, hof, hxd, hnode, Conversion.ofSchema, pure_bind]
      refine ⟨x.tree d ns, by rw [Composition.up_bare markBlind_standard, up_node hx hxd hrow], ?_⟩
      rw [hxd.symm] at hnode
      cases hr : x.role with
      | container =>
        have hchildren : (x.tree d ns).children = some ns := by simp [NodeConverter.tree, hr, Role.children]
        rw [down_some _ hchildren, hback, pure_bind, downNode_eq hx rfl, hr]
        exact hone
      | leaf =>
        rw [down_none _ (by simp [NodeConverter.tree, hr, Role.children]), downNode_eq hx rfl, hr]
        rw [content_of_leaf hx hr hnode] at hone
        exact hone
      | literal =>
        rw [down_none _ (by simp [NodeConverter.tree, hr, Role.children]), downNode_eq hx rfl, hr]
        have hvalue := value_tree hr hnode ns
        have hsingle := content_eq_plain (fun e h => hs e h e (self_mem_nodes e)) (content_of_literal hx hr hnode)
          (hed.literal (hxd ▸ (literal_iff hx).1 hr))
        rcases hsingle with hnil | ⟨v, hv, hcontent⟩
        · simp only [hnil, textContents] at hvalue hone
          simpa [Role.content, textOf, hvalue] using hone
        · rw [hcontent] at hvalue hone
          have hvalue : (x.tree d ns).value = some v :=
            hvalue.trans (by simp [textContents, textContent, Grammar.plain])
          have hread : textOf standardGrammar (x.tree d ns) [] = pure [Grammar.plain v] :=
            textOf_plain (by rfl) hv hvalue (by simp)
          simpa [Role.content, hread] using hone

/-- A whole document has a tree. -/
theorem treeOf_sound (hs : ∀ e ∈ d.nodes, standardGrammar.Sound e) (htype : d.type = "doc") :
    ∃ t, standard.up d = pure [t] ∧ standard.treeOf d = .ok t := by
  obtain ⟨t, hup, hkind⟩ := up_sound hs
  refine ⟨t, hup, Composition.treeOf_of_up hup ?_⟩
  rcases hkind with ⟨htext, -⟩ | ⟨x, hx, hxd, hk⟩
  · exact absurd (htype.symm.trans htext) (by decide)
  · rw [← hk, (type_eq_doc_iff hx).1 (hxd.trans htype)]

/-- A whole document comes back from its tree. -/
theorem documentOf_of_up {t : Node} (hs : ∀ e ∈ d.nodes, standardGrammar.Sound e) (he : ∀ e ∈ d.nodes, Expressible e)
    (hc : KeepsCode d) (htype : d.type = "doc") (hmarks : d.marks = [])
    (ht : standard.up d = pure [t]) : standard.documentOf t = .ok d := by
  obtain ⟨n, hup, hdown⟩ := down_up hs he hc
  rw [bare_eq hmarks] at hup hdown
  obtain rfl := Conversion.eq_of_pure_singleton ht hup
  exact Composition.documentOf_of_down hdown (htype ▸ rfl)

end Catalog
end RichDoc
