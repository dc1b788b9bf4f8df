import Mathlib.Data.List.Chain
import RichDoc.Catalog.Library
import RichDoc.Proofs.Conversion.Inverse

/-!
# Siblings wrapped in their marks

`Composition.upList` opens the marks of siblings run by run, and where runs overlap it has to cut some of them.
However it cuts, every sibling is converted once and stands below one wrapper for each of its marks, and no two
wrappers next to each other stand for the same mark (`Composition.upList_wraps`). Where the cuts are is told by
nests, whose leaves keep the siblings with their marks: `Nest.Wrapped` is what is known of them.
-/

namespace RichDoc

/-- A mark of a document that is opened is no longer pending. -/
theorem Document.perm_pending {d : Document} {m : Mark} {applied : List Mark} (hnodup : d.marks.Nodup)
    (h : m ∈ d.pending applied) : (m :: d.pending (m :: applied)).Perm (d.pending applied) := by
  have hpending : (d.pending applied).Nodup := hnodup.filter _
  have hrest : (d.pending applied).erase m = d.pending (m :: applied) := by
    rw [pending_cons, hpending.erase_eq_filter]
    exact List.filter_congr fun n _ => Bool.eq_iff_iff.2 (by simp)
  rw [← hrest]
  exact (List.perm_cons_erase h).symm

namespace Nest

section Fold
variable {α : Type} (onLeaf : Document → α) (onRun : Mark → List α → α)

mutual
/-- Recursion over a nest. -/
def fold : Nest → α
  | leaf d => onLeaf d
  | under m inner => onRun m (foldRow inner)

def foldRow : List Nest → List α
  | [] => []
  | x :: r => fold x :: foldRow r
end

theorem foldRow_eq (xs : List Nest) : foldRow onLeaf onRun xs = xs.map (fold onLeaf onRun) := by
  induction xs with
  | nil => rfl
  | cons x r ih => rw [foldRow, ih, List.map_cons]

theorem fold_under (m : Mark) (inner : List Nest) :
    fold onLeaf onRun (under m inner) = onRun m (inner.map (fold onLeaf onRun)) := by
  rw [fold, foldRow_eq]

end Fold

/-- The nodes that a nest becomes if a document becomes `own d`, and a run under a mark `wrap m ns`. -/
def nodes (own : Document → List Node) (wrap : Mark → List Node → Node) : Nest → List Node :=
  fold own fun m inner => [wrap m inner.flatten]

/-- The same nodes read without the wrappers. -/
def unwrapped (own : Document → List Node) : Nest → List Node :=
  fold own fun _ inner => inner.flatten

/-- The documents of a nest, each with the marks of the wrappers above it. -/
def paths : Nest → List (Document × List Mark) :=
  fold (fun d => [(d, [])]) fun m inner => inner.flatten.map fun p => (p.1, m :: p.2)

/-- For each of the nodes that a nest becomes, the mark that it stands for if it is a wrapper. -/
def tops (own : Document → List Node) : Nest → List (Option Mark)
  | leaf d => (own d).map fun _ => none
  | under m _ => [some m]

/-- No two wrappers next to each other stand for the same mark. -/
def Distinct (own : Document → List Node) (xs : List Nest) : Prop :=
  (xs.flatMap (tops own)).IsChain fun a b => a = none ∨ a ≠ b

variable {own : Document → List Node} {wrap : Mark → List Node → Node} {applied : List Mark} {m : Mark}
  {d : Document} {ds es : List Document} {xs ys inner : List Nest}

@[simp] theorem nodes_leaf : nodes own wrap (leaf d) = own d := rfl

@[simp] theorem nodes_under : nodes own wrap (under m inner) = [wrap m (inner.flatMap (nodes own wrap))] :=
  fold_under ..

@[simp] theorem unwrapped_leaf : unwrapped own (leaf d) = own d := rfl

@[simp] theorem unwrapped_under : unwrapped own (under m inner) = inner.flatMap (unwrapped own) :=
  fold_under ..

@[simp] theorem paths_leaf : paths (leaf d) = [(d, [])] := rfl

@[simp] theorem paths_under : paths (under m inner) = (inner.flatMap paths).map fun p => (p.1, m :: p.2) :=
  fold_under ..

/-- What the nests `xs` say of the siblings `ds`, around which the marks `applied` are open already. -/
structure Wrapped (own : Document → List Node) (applied : List Mark) (ds : List Document) (xs : List Nest) :
    Prop where
  siblings : (xs.flatMap paths).map Prod.fst = ds
  marks : ∀ p ∈ xs.flatMap paths, p.1.marks.Nodup → p.2.Perm (p.1.pending applied)
  unwrapped : xs.flatMap (unwrapped own) = ds.flatMap own
  apart : Distinct own xs
  below : ∀ x ∈ xs, x.Forall (fun _ => True) fun _ inner => Distinct own inner
  /-- A wrapper can come first only for a mark of the first sibling. -/
  first : ∀ m, (xs.flatMap (tops own)).head? = some (some m) → ∃ d, ds.head? = some d ∧ m ∈ d.marks

theorem Wrapped.nil : Wrapped own applied [] [] where
  siblings := rfl
  marks := by simp
  unwrapped := rfl
  apart := .nil
  below := by simp
  first := by simp

theorem Wrapped.cons_leaf (hown : own d ≠ []) (hd : d.pending applied = []) (h : Wrapped own applied ds xs) :
    Wrapped own applied (d :: ds) (leaf d :: xs) where
  siblings := by
    rw [List.flatMap_cons, paths_leaf, List.map_append, h.siblings]
    rfl
  marks := by
    intro p hp
    rw [List.flatMap_cons, paths_leaf, List.mem_append, List.mem_singleton] at hp
    intro hnodup
    rcases hp with rfl | hp
    · rw [hd]
    · exact h.marks p hp hnodup
  unwrapped := by
    rw [List.flatMap_cons, unwrapped_leaf, h.unwrapped, List.flatMap_cons]
  apart := by
    rw [Distinct, List.flatMap_cons]
    refine List.IsChain.append ?_ h.apart ?_
    · rw [tops, List.map_const']
      exact List.isChain_replicate_of_rel _ (.inl rfl)
    · intro a ha b _
      obtain ⟨n, -, rfl⟩ := List.mem_map.1 (List.mem_of_getLast? ha)
      exact .inl rfl
  below := List.forall_mem_cons.2 ⟨.leaf trivial, h.below⟩
  first := by
    intro m hm
    obtain ⟨n, ns, hcons⟩ := List.exists_cons_of_ne_nil hown
    simp [tops, hcons] at hm

theorem Wrapped.cons_under (hcarry : ∀ e ∈ d :: ds, m ∈ e.pending applied)
    (hstop : ∀ e, es.head? = some e → m ∉ e.marks) (h : Wrapped own (m :: applied) (d :: ds) xs)
    (h' : Wrapped own applied es ys) : Wrapped own applied (d :: ds ++ es) (under m xs :: ys) where
  siblings := by
    rw [List.flatMap_cons, paths_under, List.map_append, List.map_map, h'.siblings]
    exact congrArg (· ++ es) h.siblings
  marks := by
    intro p hp
    rw [List.flatMap_cons, paths_under, List.mem_append] at hp
    intro hnodup
    rcases hp with hp | hp
    · obtain ⟨q, hq, rfl⟩ := List.mem_map.1 hp
      have hmem : q.1 ∈ d :: ds := h.siblings ▸ List.mem_map_of_mem hq
      show (m :: q.2).Perm (q.1.pending applied)
      exact ((h.marks q hq hnodup).cons m).trans (Document.perm_pending hnodup (hcarry _ hmem))
    · exact h'.marks p hp hnodup
  unwrapped := by
    rw [List.flatMap_cons, unwrapped_under, h.unwrapped, h'.unwrapped, List.flatMap_append]
  apart := by
    rw [Distinct, List.flatMap_cons]
    refine h'.apart.cons fun b hb => .inr ?_
    rintro rfl
    obtain ⟨e, he, hm⟩ := h'.first m hb
    exact hstop e he hm
  below := List.forall_mem_cons.2 ⟨.under h.apart h.below, h'.below⟩
  first := by
    intro n hn
    have hmn : m = n := by simpa [tops] using hn
    subst hmn
    exact ⟨d, rfl, (List.mem_filter.1 (hcarry d (List.mem_cons_self ..))).1⟩

end Nest

namespace Composition
open Conversion Document Nest
variable {c : Composition} {own : Document → List Node} {wrap : Mark → List Node → Node} {applied : List Mark}
  {d : Document} {ds : List Document}

/-- Along `upList`, runs that overlap are cut into nests. -/
theorem exists_wrapped (applied : List Mark) (ds : List Document)
    (hown : ∀ d ∈ ds, own d ≠ [] ∧ (c.up d).Always (· = own d))
    (hwrap : ∀ d ∈ ds, ∀ m ∈ d.marks, ∀ ns, (c.upMark m ns).Always (· = [wrap m ns])) :
    ∃ xs, c.upList applied ds = c.renderRow xs ∧
      (c.upList applied ds).Always (· = xs.flatMap (nodes own wrap)) ∧ Wrapped own applied ds xs := by
  induction applied, ds using upList.induct with
  | case1 applied =>
    refine ⟨[], ?_, ?_, .nil⟩
    · rw [upList, renderRow]
    · rw [upList]
      exact always_pure rfl
  | case2 applied d r hm _ ih =>
    obtain ⟨hd, hr⟩ := List.forall_mem_cons.1 hown
    obtain ⟨xs, hprogram, halways, hxs⟩ := ih hr fun e he => hwrap e (List.mem_cons_of_mem _ he)
    refine ⟨leaf d :: xs, ?_, ?_, hxs.cons_leaf hd.1 (farthest_eq_none.1 hm)⟩
    · rw [upList_own hm, renderRow, render, hprogram]
    · rw [upList_own hm]
      exact hd.2.bind_eq (halways.bind_eq (always_pure rfl))
  | case3 applied d r m hm ih₁ ih₂ =>
    have hpending := farthest_mem hm
    have hd : m ∈ d.marks := (List.mem_filter.1 hpending).1
    obtain ⟨hown₁, hown₂⟩ := forall_mem_run m hown
    obtain ⟨hwrap₁, hwrap₂⟩ := forall_mem_run m hwrap
    obtain ⟨xs, hprogram₁, halways₁, hxs⟩ := ih₁ hown₁ hwrap₁
    obtain ⟨ys, hprogram₂, halways₂, hys⟩ := ih₂ hown₂ hwrap₂
    refine ⟨under m xs :: ys, ?_, ?_, ?_⟩
    · rw [upList_run hm, renderRow, render, hprogram₁, hprogram₂, bind_assoc]
    · have hwrapper := hwrap d (List.mem_cons_self ..) m hd (xs.flatMap (nodes own wrap))
      rw [upList_run hm, List.flatMap_cons, nodes_under]
      exact halways₁.bind_eq (hwrapper.bind_eq (halways₂.bind_eq (always_pure rfl)))
    · have hwhole : d :: r = d :: r.takeWhile (·.marks.contains m) ++ r.dropWhile (·.marks.contains m) := by
        rw [List.cons_append, List.takeWhile_append_dropWhile]
      rw [hwhole]
      refine hxs.cons_under ?_ ?_ hys
      · intro e he
        exact List.mem_filter.2 ⟨mem_marks_of_takeWhile hd e he, by simpa using not_mem_of_mem_pending hpending⟩
      · intro e he
        have hnot := List.head?_dropWhile_not (·.marks.contains m) r
        rw [he] at hnot
        simpa using hnot

/-- The composition has a converter for nodes of the type `t`. -/
def IsNode (c : Composition) (t : String) : Prop := ∃ e, c.ofType? t = some e ∧ e.node?.isSome

/-- The composition has a converter for marks of the type `t`. -/
def IsMark (c : Composition) (t : String) : Prop := ∃ e, c.ofType? t = some e ∧ e.mark?.isSome

/-- The nodes and the marks of a document, at every depth, are of types that the composition has. -/
def Knows (c : Composition) (d : Document) : Prop :=
  ∀ e ∈ d.nodes, c.IsNode e.type ∧ ∀ m ∈ e.marks, c.IsMark m.type

/-- Whatever the context, converters of nodes give at least one node, and those of marks one node around the run. -/
structure Wraps (c : Composition) : Prop where
  node : ∀ d ns, c.IsNode d.type → ∃ r, r ≠ [] ∧ (c.upNode d ns).Always (· = r)
  mark : ∀ m ns, c.IsMark m.type → ∃ n : Node, n.children = some ns ∧ (c.upMark m ns).Always (· = [n])

theorem Wraps.exists_wrap (hc : c.Wraps) : ∃ wrap : Mark → List Node → Node, ∀ m ns, c.IsMark m.type →
    (wrap m ns).children = some ns ∧ (c.upMark m ns).Always (· = [wrap m ns]) := by
  choose! wrap hwrap using hc.mark
  exact ⟨wrap, hwrap⟩

theorem Knows.marks {d : Document} (h : c.Knows d) : ∀ m ∈ d.marks, c.IsMark m.type :=
  (h d d.self_mem_nodes).2

theorem Wraps.exists_up (hc : c.Wraps) (hk : c.Knows d) : ∃ r, r ≠ [] ∧ (c.up d).Always (· = r) := by
  obtain ⟨wrap, hwrap⟩ := hc.exists_wrap
  induction d using Document.induct with
  | step d ih =>
    obtain ⟨⟨hnode, -⟩, hcontent⟩ := forall_nodes.1 hk
    have hown : ∀ e ∈ d.content, ∃ r, r ≠ [] ∧ (c.up e).Always (· = r) := fun e he => ih e he (hcontent e he)
    choose! own hown using hown
    obtain ⟨xs, -, halways, -⟩ := exists_wrapped [] d.content hown fun e he m hm ns =>
      (hwrap m ns (Knows.marks (hcontent e he) m hm)).2
    obtain ⟨r, hr, hup⟩ := hc.node d (xs.flatMap (nodes own wrap)) hnode
    refine ⟨r, hr, ?_⟩
    rw [up]
    exact halways.bind_eq hup

/-- Every sibling is converted once, below wrappers for exactly its marks. -/
theorem upList_wraps (hc : c.Wraps) (hk : ∀ d ∈ ds, c.Knows d) (hnodup : ∀ d ∈ ds, d.marks.Nodup) :
    ∃ (xs : List Nest) (own : Document → List Node) (wrap : Mark → List Node → Node),
      (∀ d ∈ ds, (c.up d).Always (· = own d)) ∧
      (∀ d ∈ ds, ∀ m ∈ d.marks, ∀ ns,
        (c.upMark m ns).Always (· = [wrap m ns]) ∧ (wrap m ns).children = some ns) ∧
      c.upList [] ds = c.renderRow xs ∧
      (c.upList [] ds).Always (· = xs.flatMap (nodes own wrap)) ∧
      xs.flatMap (unwrapped own) = ds.flatMap own ∧
      (xs.flatMap paths).map Prod.fst = ds ∧
      (∀ p ∈ xs.flatMap paths, p.2.Perm p.1.marks) ∧
      Distinct own xs ∧ ∀ x ∈ xs, x.Forall (fun _ => True) fun _ inner => Distinct own inner := by
  obtain ⟨wrap, hwrap⟩ := hc.exists_wrap
  have hown : ∀ d ∈ ds, ∃ r, r ≠ [] ∧ (c.up d).Always (· = r) := fun d hd => hc.exists_up (hk d hd)
  choose! own hown using hown
  have hmark : ∀ d ∈ ds, ∀ m ∈ d.marks, ∀ ns,
      (wrap m ns).children = some ns ∧ (c.upMark m ns).Always (· = [wrap m ns]) :=
    fun d hd m hm ns => hwrap m ns ((hk d hd).marks m hm)
  obtain ⟨xs, hprogram, halways, hxs⟩ :=
    exists_wrapped [] ds hown fun d hd m hm ns => (hmark d hd m hm ns).2
  refine ⟨xs, own, wrap, fun d hd => (hown d hd).2, fun d hd m hm ns => (hmark d hd m hm ns).symm, hprogram,
    halways, hxs.unwrapped, hxs.siblings, ?_, hxs.apart, hxs.below⟩
  intro p hp
  have hmem : p.1 ∈ ds := hxs.siblings ▸ List.mem_map_of_mem hp
  have hperm := hxs.marks p hp (hnodup _ hmem)
  rwa [pending_nil] at hperm

/-- Paragraphs of text with marks that are wrappers. -/
def phrasing : Composition :=
  .of [Catalog.paragraph, Catalog.text, Catalog.em, Catalog.strong, Catalog.link] ⟨[], [], none⟩

theorem wraps_phrasing : phrasing.Wraps where
  node := by
    rintro d ns ⟨e, he, hnode⟩
    have hup : phrasing.upNode d ns = e.toTree phrasing.grammar d ns := by rw [upNode, he]
    rw [hup]
    rw [phrasing, ofType?_of] at he
    have hmem := List.mem_of_find?_eq_some he
    simp only [List.mem_cons, List.not_mem_nil, or_false] at hmem
    rcases hmem with rfl | rfl | rfl | rfl | rfl
    · exact ⟨[.parent .paragraph ns], by simp, always_pure rfl⟩
    · exact ⟨[.literal .text (d.text.getD "")], by simp, always_pure rfl⟩
    · cases hnode
    · cases hnode
    · cases hnode
  mark := by
    rintro m ns ⟨e, he, hmark⟩
    have hup : phrasing.upMark m ns = e.wrap phrasing.grammar m ns := by rw [upMark, he]
    rw [hup]
    rw [phrasing, ofType?_of] at he
    have hmem := List.mem_of_find?_eq_some he
    simp only [List.mem_cons, List.not_mem_nil, or_false] at hmem
    rcases hmem with rfl | rfl | rfl | rfl | rfl
    · cases hmark
    · cases hmark
    · exact ⟨.parent .emphasis ns, rfl, always_pure rfl⟩
    · exact ⟨.parent .strong ns, rfl, always_pure rfl⟩
    · refine ⟨_, ?_, always_pure rfl⟩
      cases m.attrs.str? "title" <;> rfl

/-- Emphasis and strong text overlap, and a link begins where the emphasis ends. -/
def overlapping : List Document :=
  let em : Mark := ⟨"em", ∅⟩
  let strong : Mark := ⟨"strong", ∅⟩
  let link : Mark := ⟨"link", .ofList [("href", .str "/")]⟩
  [⟨"text", ∅, [], some "a", [em]⟩, ⟨"text", ∅, [], some "b", [em, strong]⟩,
    ⟨"text", ∅, [], some "c", [link, strong]⟩]

theorem knows_overlapping : ∀ d ∈ overlapping, phrasing.Knows d := by
  have htext : phrasing.IsNode "text" := ⟨Catalog.text, rfl, rfl⟩
  have hem : phrasing.IsMark "em" := ⟨Catalog.em, rfl, rfl⟩
  have hstrong : phrasing.IsMark "strong" := ⟨Catalog.strong, rfl, rfl⟩
  have hlink : phrasing.IsMark "link" := ⟨Catalog.link, rfl, rfl⟩
  simp [overlapping, Knows, Document.nodes, Document.nodesBelow, htext, hem, hstrong, hlink]

theorem upList_wraps_overlapping : phrasing.Wraps ∧ (∀ d ∈ overlapping, phrasing.Knows d) ∧
    (∀ d ∈ overlapping, d.marks.Nodup) ∧
    ∃ xs own wrap, (phrasing.upList [] overlapping).Always (· = xs.flatMap (nodes own wrap)) ∧
      xs.flatMap (unwrapped own) = overlapping.flatMap own ∧ Distinct own xs := by
  have hnodup : ∀ d ∈ overlapping, d.marks.Nodup := by decide
  obtain ⟨xs, own, wrap, -, -, -, halways, hread, -, -, hdistinct, -⟩ :=
    upList_wraps wraps_phrasing knows_overlapping hnodup
  exact ⟨wraps_phrasing, knows_overlapping, hnodup, xs, own, wrap, halways, hread, hdistinct⟩

-- the emphasis is kept whole, and the strong text is cut where it ends
example : run (phrasing.upList [] overlapping) = .ok
    [.parent .emphasis [.literal .text "a", .parent .strong [.literal .text "b"]],
      (Node.parent .link [.parent .strong [.literal .text "c"]]).withData "url" "/"] := by
  cbv

end Composition
end RichDoc
