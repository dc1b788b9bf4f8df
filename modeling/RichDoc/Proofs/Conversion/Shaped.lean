import RichDoc.Proofs.Conversion.Fitting

/-!
# Trees that come back in shape

The document that is loaded from a tree has a tree again. This one has the shape of the first exactly if the first
is `Nested` all over (`shape_treeOf_iff`).
-/

namespace RichDoc
namespace Catalog
open Document Conversion

variable {n : Node} {ns : List Node} {ds : List Document}

theorem exists_row {dss : List (List Document)}
    (h : List.Forall₂ (fun n ds => ∃ x, Nest.docs standardGrammar x = ds ∧ Fits n x) ns dss) :
    ∃ xs, Nest.docsBelow standardGrammar xs = dss.flatten ∧ List.Forall₂ Fits ns xs := by
  induction h with
  | nil => exact ⟨[], rfl, .nil⟩
  | cons hx _ ih =>
    obtain ⟨x, rfl, hfits⟩ := hx
    obtain ⟨xs, hxs, hrow⟩ := ih
    exact ⟨x :: xs, by rw [Nest.docsBelow, hxs, List.flatten_cons], .cons hfits hrow⟩

/-- What is loaded from a node has its nest. -/
theorem exists_fits (hf : ∀ e ∈ n.nodes, Formed e) (h : Gives (standard.down n) ds) :
    ∃ x, Nest.docs standardGrammar x = ds ∧ Fits n x := by
  induction n using Node.induct generalizing ds with
  | step n ih =>
    have hs := sound_of_gives h
    obtain ⟨hn, hchildren⟩ := Node.forall_nodes.1 hf
    obtain ⟨cs, hcs, hnode⟩ := Composition.gives_down h
    obtain ⟨dss, rfl, hdss⟩ := Composition.gives_downList hcs
    have hnests : List.Forall₂ (fun c ds => c ∈ n.childList ∧ Gives (standard.down c) ds) n.childList dss :=
      (List.forall₂_and_left _ _).2 ⟨fun _ hc => hc, hdss⟩
    obtain ⟨xs, hxs, hrow⟩ := exists_row (hnests.imp fun c ds hd => ih c hd.1 (hchildren c hd.1) hd.2)
    have hloads := loads_of_gives hnode
    cases hloads with
    | @node z content e hz hk hc hmade =>
      obtain ⟨-, htype, hcontent, hmarks⟩ := Grammar.node_node hmade
      exact ⟨.leaf e, rfl, fits_node hn hz hk (hs e (by simp)) htype.symm hmarks (hcontent ▸ hc) hrow hxs⟩
    | @mark z as m hz hk has hmade =>
      refine ⟨.under m xs, by rw [Nest.docs_under, hxs], ?_⟩
      exact fits_mark hn hz hk (mark?_of_mark hz hk has hmade) (Grammar.mark_mark hmade).1 hrow
    | empty hk hv => exact absurd hv (hn.value hk)
    | @text v hk hv hnv =>
      have hnone : n.children = none := by simpa [hk, Kind.isLeaf] using hn.children
      have hmark := mark?_of_kind (.inl hk)
      refine ⟨.leaf (Grammar.plain v), rfl, fits_leaf hmark (by simp [hk]) rfl (up_plain v) (iff_of_true ?_ ?_)⟩
      · simp [Node.shape_eq_iff, Node.literal, hk, hnone]
      · exact nested_of_childList (by simp [Node.childList, hnone]) hmark
    | @code v m hk hv hnv hm =>
      have hnone : n.children = none := by simpa [hk, Kind.isLeaf] using hn.children
      exact ⟨.under m [.leaf (Grammar.plain v)], rfl, fits_code hk hnone hm⟩

/-- A loaded tree comes back in shape exactly if its marks are rightly nested. -/
theorem shape_treeOf_iff {c : Composition} {t : Node} {d : Document}
    (hc : library.compose (places ["gfm", "html"]) = .ok c) (hroot : t.kind = .root) (ht : ∀ e ∈ t.nodes, Formed e)
    (hd : c.documentOf t = .ok d) :
    ∃ u, c.treeOf d = .ok u ∧ (u.shape = t.shape ↔ ∀ e ∈ t.nodes, Nested e) := by
  obtain rfl : standard = c := Except.ok.inj (compose_standard.symm.trans hc)
  obtain ⟨hdown, htop⟩ := Composition.gives_of_documentOf hd
  have htype : d.type = "doc" := Option.some.inj (htop.symm.trans (by rfl))
  obtain ⟨u, hup, hu⟩ := treeOf_sound (sound_of_gives hdown d (List.mem_singleton_self d)) htype
  obtain ⟨x, hx, hfits⟩ := exists_fits ht hdown
  -- no mark is over a root, so its nest is the document alone
  have hmarks : d.marks = [] := by
    have hcarry := hfits.carry
    rw [hx, Node.marksOver_of_none (by simp [Node.mark?, hroot, Kind.mark?])] at hcarry
    exact List.eq_nil_iff_forall_not_mem.2 (by simpa [Carry, hroot] using hcarry)
  obtain rfl := Nest.eq_leaf_of_docs hx hmarks
  obtain ⟨k, hk, hiff⟩ := hfits.shape
  obtain rfl := eq_of_pure_singleton hup hk
  refine ⟨u, hu, ?_⟩
  rw [← hiff]
  exact (and_iff_right (.leaf hmarks)).symm

/-- A tree with a link in emphasis and inline code under a mark that runs on. -/
def rightlyNested : Node := .parent .root [
  .parent .heading [
    .parent .emphasis [
      .parent .strong [.literal .text "a"],
      ⟨.link, none, some [.literal .text "b", .literal .inlineCode "c"], none, .ofList [("url", .str "u")]⟩],
    .parent .delete [.literal .text "d", .literal .inlineCode "e"],
    .void .break],
  .literal .code "f"]

/-- The document of `rightlyNested`. -/
def rightlyMarked : Document :=
  ⟨"doc", ∅, [
    ⟨"heading", .ofList [("level", .int 1)], [
      ⟨"text", ∅, [], some "a", [⟨"em", ∅⟩, ⟨"strong", ∅⟩]⟩,
      ⟨"text", ∅, [], some "b", [⟨"link", .ofList [("href", .str "u"), ("title", .null)]⟩, ⟨"em", ∅⟩]⟩,
      ⟨"text", ∅, [], some "c", [⟨"link", .ofList [("href", .str "u"), ("title", .null)]⟩, ⟨"em", ∅⟩, ⟨"code", ∅⟩]⟩,
      ⟨"text", ∅, [], some "d", [⟨"strikethrough", ∅⟩]⟩,
      ⟨"text", ∅, [], some "e", [⟨"code", ∅⟩, ⟨"strikethrough", ∅⟩]⟩,
      ⟨"hard_break", ∅, [], none, []⟩], none, []⟩,
    ⟨"code_block", .ofList [("language", .null), ("meta", .null)], [⟨"text", ∅, [], some "f", []⟩], none, []⟩],
    none, []⟩

/-- A tree with marks in order comes back in shape. -/
theorem shape_treeOf_rightlyMarked : standard.documentOf rightlyNested = .ok rightlyMarked ∧
    ∃ u, standard.treeOf rightlyMarked = .ok u ∧ u.shape = rightlyNested.shape := by
  have hd : standard.documentOf rightlyNested = .ok rightlyMarked := by decide +kernel
  obtain ⟨u, hu, hiff⟩ := shape_treeOf_iff compose_standard rfl (by decide) hd
  exact ⟨hd, u, hu, hiff.2 (by decide)⟩

/-- A text under two kinds. -/
def wrapped (outer inner : Kind) : Node :=
  .parent .root [.parent .paragraph [.parent outer [.parent inner [.literal .text "a"]]]]

/-- The document of a text under emphasis and strong, in whatever order. -/
def strongText : Document :=
  ⟨"doc", ∅, [⟨"paragraph", ∅, [⟨"text", ∅, [], some "a", [⟨"em", ∅⟩, ⟨"strong", ∅⟩]⟩], none, []⟩], none, []⟩

/-- Strong around emphasis alone comes back as emphasis around strong. -/
theorem not_forall_shape_treeOf : ¬ ∀ (c : Composition) (t : Node) (d : Document),
    library.compose (places ["gfm", "html"]) = .ok c → (∀ e ∈ t.nodes, Formed e) →
    (∀ e ∈ t.nodes, e.childList.IsChain fun a b => a.mark?.isSome → a.mark? ≠ b.mark?) →
    (∀ e ∈ t.nodes, e.kind = .delete → ∀ f ∈ e.nodes, f.kind ≠ .inlineCode) →
    (∀ e ∈ t.nodes, (Node.marksOverBelow e.childList).IsChain fun l l' => ¬ (Mark.code ∈ l ∧ Mark.code ∈ l')) →
    c.documentOf t = .ok d → ∃ u, c.treeOf d = .ok u ∧ u.shape = t.shape := by
  intro h
  have hload : standard.documentOf (wrapped .strong .emphasis) = .ok strongText := by decide +kernel
  have hsave : standard.treeOf strongText = .ok (wrapped .emphasis .strong) := by decide +kernel
  obtain ⟨u, hu, hshape⟩ := h standard _ _ compose_standard (by decide) (by decide) (by decide) (by decide) hload
  obtain rfl := Except.ok.inj (hsave.symm.trans hu)
  exact absurd hshape (by decide)

end Catalog
end RichDoc
