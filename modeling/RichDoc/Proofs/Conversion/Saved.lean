import RichDoc.Proofs.Conversion.Edited
import RichDoc.Proofs.Conversion.Weighing

/-!
# Saving and reloading

A loaded document always has a tree. It comes back from this tree exactly if it carries no marks itself and each
inline code stands for a single text (`documentOf_treeOf_iff`).
-/

namespace RichDoc
namespace Catalog
open Document Conversion

/-- A loaded document is saved, and comes back exactly if no inline code stands for more than one text. -/
theorem documentOf_treeOf_iff {c : Composition} {t : Node} {d : Document}
    (hc : library.compose (places ["gfm", "html"]) = .ok c) (ht : ∀ e ∈ t.nodes, StartsRight e)
    (hd : c.documentOf t = .ok d) :
    ∃ u, c.treeOf d = .ok u ∧ (c.documentOf u = .ok d ↔ d.marks = [] ∧ KeepsCode d) := by
  obtain rfl : standard = c := Except.ok.inj (compose_standard.symm.trans hc)
  obtain ⟨hdown, htop⟩ := Composition.gives_of_documentOf hd
  have hs := sound_of_gives hdown d (List.mem_singleton_self d)
  have he := expressible_of_gives ht hdown d (List.mem_singleton_self d)
  have htype : d.type = "doc" := (Option.some.inj (htop.symm.trans (by rfl)))
  obtain ⟨u, hup, hu⟩ := treeOf_sound hs htype
  refine ⟨u, hu, fun hback => ?_, fun ⟨hmarks, hcode⟩ => documentOf_of_up hs he hcode htype hmarks hup⟩
  -- what comes back weighs no more than the document without its marks
  obtain ⟨n, hn, hsettle⟩ := settles_up hs he
  obtain rfl := eq_of_pure_singleton hup hn
  obtain ⟨hle, -, hkeep⟩ := hsettle [d]
    (Composition.gives_downList_singleton.2 (Composition.gives_of_documentOf hback).1)
  have hmarks : d.marks = [] := by
    simp only [weights, weight_eq, marks_bare, content_bare, List.length_nil] at hle
    exact List.length_eq_zero_iff.1 (by omega)
  exact ⟨hmarks, hkeep (by rw [bare_eq hmarks])⟩

/-- A tree with marks that cross, inline code and a list that starts at three. -/
def journal : Node := .parent .root [
  .parent .paragraph [
    .parent .strong [.parent .emphasis [.literal .text "a"]],
    .parent .emphasis [.literal .text "b"],
    .literal .inlineCode "c"],
  ⟨.list, none, some [.parent .listItem [.parent .paragraph [.parent .delete [.literal .text "d"]]]], none,
    .ofList [("ordered", .bool true), ("start", .int 3)]⟩]

/-- The document of `journal`. -/
def entry : Document :=
  ⟨"doc", ∅, [
    ⟨"paragraph", ∅, [
      ⟨"text", ∅, [], some "a", [⟨"em", ∅⟩, ⟨"strong", ∅⟩]⟩,
      ⟨"text", ∅, [], some "b", [⟨"em", ∅⟩]⟩,
      ⟨"text", ∅, [], some "c", [⟨"code", ∅⟩]⟩], none, []⟩,
    ⟨"list", .ofList [("ordered", .bool true), ("start", .int 3)], [
      ⟨"list_item", .ofList [("checked", .null)], [
        ⟨"paragraph", ∅, [⟨"text", ∅, [], some "d", [⟨"strikethrough", ∅⟩]⟩], none, []⟩], none, []⟩], none, []⟩],
    none, []⟩

/-- A document loaded with crossing marks comes back, in whatever order its tree opens them. -/
theorem documentOf_treeOf_entry : standard.documentOf journal = .ok entry ∧
    ∃ u, standard.treeOf entry = .ok u ∧ standard.documentOf u = .ok entry := by
  have hd : standard.documentOf journal = .ok entry := by decide +kernel
  obtain ⟨u, hu, hiff⟩ := documentOf_treeOf_iff compose_standard (by decide) hd
  exact ⟨hd, u, hu, hiff.2 ⟨rfl, keepsCode_of_codeApart (by decide +kernel) (by decide)⟩⟩

/-- A paragraph of inline codes. -/
def codes (vs : List String) : Node := .parent .root [.parent .paragraph (vs.map (.literal .inlineCode))]

/-- The document of `codes`. -/
def codeTexts (vs : List String) : Document :=
  ⟨"doc", ∅, [⟨"paragraph", ∅, vs.map fun v => ⟨"text", ∅, [], some v, [⟨"code", ∅⟩]⟩, none, []⟩], none, []⟩

/-- Two inline codes side by side do not come back: one inline code is saved for both. -/
theorem not_forall_documentOf_treeOf : ¬ ∀ (c : Composition) (t : Node) (d : Document),
    library.compose (places ["gfm", "html"]) = .ok c → (∀ e ∈ t.nodes, StartsRight e) → c.documentOf t = .ok d →
    ∃ u, c.treeOf d = .ok u ∧ c.documentOf u = .ok d := by
  intro h
  have hload : standard.documentOf (codes ["a", "b"]) = .ok (codeTexts ["a", "b"]) := by decide +kernel
  have hsave : standard.treeOf (codeTexts ["a", "b"]) = .ok (codes ["ab"]) := by decide +kernel
  have hreload : standard.documentOf (codes ["ab"]) = .ok (codeTexts ["ab"]) := by decide +kernel
  obtain ⟨u, hu, hback⟩ := h standard _ _ compose_standard (by decide) hload
  obtain rfl := Except.ok.inj (hsave.symm.trans hu)
  exact absurd (Except.ok.inj (hreload.symm.trans hback)) (by decide)

end Catalog
end RichDoc
