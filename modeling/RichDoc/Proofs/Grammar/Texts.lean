import RichDoc.Proofs.Grammar.MarkSets
import RichDoc.Proofs.Grammar.Valid

/-!
# Text nodes and their type

`Grammar.Enforced g t d`: the checks that `Grammar.node` makes for the type `t` pass for the node and leave its
attributes as they are. Every node that it makes is of that kind (`enforced_iff_node`). A text node is made without
them: it has no attributes and no content whatever its type declares. So it is as its type asks exactly when the type
declares no attributes and a content expression of it accepts an empty list (`text_enforced_iff`).
-/

namespace RichDoc

theorem StringMap.keys_eq_nil_iff {α : Type} {a : StringMap α} : a.keys = [] ↔ a = ∅ := by
  rw [keys, List.map_eq_nil_iff]
  constructor
  · intro h
    obtain ⟨es, hes⟩ := a
    obtain rfl : es = [] := h
    rfl
  · rintro rfl
    rfl

namespace Grammar
variable {g : Grammar} {d e : Document} {t : NodeType} {v : String} {ms : List Mark}

/-- The node passes the checks of `Grammar.node` as a node of type `t`: all declared attributes are present and no
others, the content is accepted, and so are the marks in it. -/
structure Enforced (g : Grammar) (t : NodeType) (d : Document) : Prop where
  attrs : AttrSpecs.fill d.type d.attrs t.spec.attrs.entries = .ok d.attrs
  content : g.checkContent t d.content = .ok ()
  marks : checkMarks t d.content = .ok ()

/-- The nodes that are made with attributes and content are those that pass the checks. -/
theorem enforced_iff_node (ht : g.nodeType? d.type = some t) (hne : d.type ≠ "text") :
    g.Enforced t d ↔ g.node d.type d.attrs d.content = .ok ⟨d.type, d.attrs, d.content, none, []⟩ := by
  rw [node_eq_ok]
  constructor
  · intro h
    exact ⟨t, d.attrs, ht, hne, h.attrs, h.content, h.marks, rfl⟩
  · rintro ⟨u, a, hu, -, ha, hc, hm, hd⟩
    obtain rfl : t = u := Option.some.inj (ht.symm.trans hu)
    obtain rfl : d.attrs = a := congrArg Document.attrs hd
    exact ⟨ha, hc, hm⟩

theorem enforced_iff : g.Enforced t d ↔
    d.attrs.keys = t.spec.attrs.keys ∧
      ((t.isLeaf → d.content = []) ∧
        ∀ c ∈ t.content, c.accepts (fun child name => g.isA child name) (d.content.map (·.type)) = .ok true) ∧
      ∀ e ∈ d.content, ∀ m ∈ e.marks, t.spec.marks.allows m.type := by
  rw [← checkContent_eq_ok, ← checkMarks_eq_ok, ← @AttrSpecs.fill_self_iff d.type]
  exact ⟨fun h => ⟨h.attrs, h.content, h.marks⟩, fun ⟨ha, hc, hm⟩ => ⟨ha, hc, hm⟩⟩

theorem bare_of_foldlM (h : ms.foldlM g.addMark d = .ok e) : e.bare = d.bare := by
  induction ms generalizing d with
  | nil =>
    cases h
    rfl
  | cons m r ih =>
    rw [List.foldlM_cons, bind_eq_ok] at h
    obtain ⟨d', hadd, h⟩ := h
    obtain ⟨-, rfl⟩ := addMark_eq_ok.1 hadd
    exact (ih h).trans bare_withMark

/-- A text node that the grammar makes is as its type asks, in the way other nodes are held to it, if and only if the
type declares no attributes and its content expression, if it has one, accepts no content at all. -/
theorem text_enforced_iff (h : g.text v ms = .ok d) :
    ∃ t, g.nodeType? "text" = some t ∧ v ≠ "" ∧ d.bare = plain v ∧
      (g.Enforced t d ↔
        t.spec.attrs = ∅ ∧ ∀ c ∈ t.content, c.accepts (fun child name => g.isA child name) [] = .ok true) := by
  obtain ⟨hknown, hv, hmarked⟩ := text_eq_ok_iff.1 h
  obtain ⟨t, ht⟩ := Option.isSome_iff_exists.1 hknown
  have hbare : d.bare = plain v := bare_of_foldlM hmarked
  have hattrs : d.attrs = ∅ := congrArg Document.attrs hbare
  have hcontent : d.content = [] := congrArg Document.content hbare
  have hkeys : (∅ : Data).keys = t.spec.attrs.keys ↔ t.spec.attrs = ∅ := eq_comm.trans StringMap.keys_eq_nil_iff
  refine ⟨t, ht, hv, hbare, ?_⟩
  rw [enforced_iff, hattrs, hcontent, hkeys]
  simp

/-- The texts of letters declare nothing, so an emphasised one is as its type asks. -/
theorem text_enforced_letter :
    letterGrammar.text "a" [⟨"em", ∅⟩] = .ok ⟨"text", ∅, [], some "a", [⟨"em", ∅⟩]⟩ ∧
      ∃ t, letterGrammar.nodeType? "text" = some t ∧
        letterGrammar.Enforced t ⟨"text", ∅, [], some "a", [⟨"em", ∅⟩]⟩ := by
  have htext : letterGrammar.text "a" [⟨"em", ∅⟩] = .ok ⟨"text", ∅, [], some "a", [⟨"em", ∅⟩]⟩ := by rfl
  obtain ⟨t, ht, -, -, henforced⟩ := text_enforced_iff htext
  obtain rfl : ⟨"text", {}, none⟩ = t := Option.some.inj ht
  exact ⟨htext, _, ht, henforced.2 ⟨rfl, by simp⟩⟩

/-- Texts in a language, English if none is given. -/
def tongues : Grammar where
  nodes := [⟨"text", { attrs := .ofList [("lang", some (.str "en"))] }, none⟩]
  marks := []
  top := none

/-- A text node has no attributes even if its type gives them defaults. -/
theorem not_forall_text_enforced :
    (¬ ∀ (nodes : List (String × NodeSpec)) (marks : List (String × MarkSpec)) (top : Option String) (g : Grammar)
      (v : String) (ms : List Mark) (d : Document) (t : NodeType),
      build nodes marks top = .ok g → g.text v ms = .ok d → g.nodeType? "text" = some t → g.Enforced t d) ∧
    tongues.text "a" [] = .ok (plain "a") ∧
    AttrSpecs.fill "text" ∅ [("lang", some (.str "en"))] = .ok (.ofList [("lang", .str "en")]) := by
  refine ⟨fun h => ?_, rfl, rfl⟩
  have henforced := h [("text", { attrs := .ofList [("lang", some (.str "en"))] })] [] none tongues "a" [] (plain "a") _
    rfl rfl rfl
  have hkeys := (enforced_iff.1 henforced).1
  exact absurd hkeys (by decide)

end Grammar
end RichDoc
