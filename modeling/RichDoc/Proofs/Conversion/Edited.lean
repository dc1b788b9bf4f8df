import Mathlib.Data.List.Chain
import RichDoc.Proofs.Conversion.Reload

/-!
# Edited documents survive the tree

A document that the standard grammar makes becomes a tree that becomes the same document
(`documentOf_treeOf_of_makes`), if its nodes are `Expressible` and its inline code is `CodeApart`. Marks of equal
reach are opened in order of rank, and only strikethrough comes after inline code. So inline code that stands apart
is opened last, around one text (`codeSingle_group`).
-/

namespace RichDoc
namespace Catalog
open Document

/-- No inline code that is struck through, and no two neighbours that are both inline code. -/
structure CodeApart (ds : List Document) : Prop where
  plain : ∀ d ∈ ds, d.hasMark "code" → ¬ d.hasMark "strikethrough"
  apart : ds.IsChain fun d e => ¬ (d.hasMark "code" ∧ e.hasMark "code")

instance : DecidablePred CodeApart := fun ds =>
  decidable_of_iff ((∀ d ∈ ds, d.hasMark "code" → ¬ d.hasMark "strikethrough") ∧
    ds.IsChain fun d e => ¬ (d.hasMark "code" ∧ e.hasMark "code"))
    ⟨fun ⟨h₁, h₂⟩ => ⟨h₁, h₂⟩, fun ⟨h₁, h₂⟩ => ⟨h₁, h₂⟩⟩

variable {d : Document} {ds es : List Document} {m n : Mark}

theorem hasMark_iff {ty : String} : d.hasMark ty ↔ ∃ m ∈ d.marks, m.type = ty := by
  simp [hasMark]

theorem hasMark_of_without {ty : String} (h : (d.without m).hasMark ty) : d.hasMark ty := by
  obtain ⟨n, hn, hty⟩ := hasMark_iff.1 h
  exact hasMark_iff.2 ⟨n, (List.mem_filter.1 hn).1, hty⟩

theorem CodeApart.map_without (h : CodeApart ds) (m : Mark) : CodeApart (ds.map (without m)) := by
  refine ⟨fun e he hcode hstrike => ?_, ?_⟩
  · obtain ⟨d, hd, rfl⟩ := List.mem_map.1 he
    exact h.plain d hd (hasMark_of_without hcode) (hasMark_of_without hstrike)
  · exact List.isChain_map_of_isChain _ (fun a b hab hboth =>
      hab ⟨hasMark_of_without hboth.1, hasMark_of_without hboth.2⟩) h.apart

theorem CodeApart.of_isInfix (h : CodeApart ds) (hi : es <:+: ds) : CodeApart es :=
  ⟨fun d hd => h.plain d (hi.subset hd), List.IsChain.infix h.apart hi⟩

/-- Of the marks of the standard grammar only strikethrough comes after inline code. -/
theorem strikethrough_of_outer (hm : m.type = "code") (h : standardGrammar.Outer m n) : n.type = "strikethrough" := by
  obtain ⟨i, j, hi, hj, hlt⟩ := h
  rw [hm] at hi
  cases hi
  obtain ⟨t, ht, rfl⟩ := Option.map_eq_some_iff.1 hj
  obtain ⟨hmem, hname⟩ := Grammar.markType?_eq_some ht
  have hall : ∀ t ∈ standardGrammar.marks, 3 < t.rank → t.name = "strikethrough" := by
    decide
  exact hname ▸ hall t hmem hlt

/-- Inline code that stands apart is opened around one text. -/
theorem codeSingle_group (ds : List Document) (h : ∀ d ∈ ds, standardGrammar.InRank d.marks) (hc : CodeApart ds) :
    ∀ x ∈ group ds, x.CodeSingle := by
  induction ds using group_induct with
  | nil => simp
  | leaf d r hd ih =>
    rw [group_leaf hd]
    refine List.forall_mem_cons.2 ⟨.leaf trivial, ih (fun e he => h e (List.mem_cons_of_mem _ he)) ?_⟩
    exact hc.of_isInfix (List.suffix_cons d r).isInfix
  | under d r m hm ih₁ ih₂ =>
    obtain ⟨hrun, hdrop⟩ := forall_mem_run m h
    rw [group_under hm]
    refine List.forall_mem_cons.2 ⟨.under (fun hcode => ?_) (ih₁ (forall_mem_without hrun) ?_), ih₂ hdrop ?_⟩
    · -- the next sibling is no code, so the mark reaches no farther than any other
      have hdcode : d.hasMark "code" := hasMark_iff.2 ⟨m, farthest_mem hm, hcode⟩
      have hnone : r.takeWhile (·.marks.contains m) = [] := by
        cases r with
        | nil => rfl
        | cons e s =>
          refine List.takeWhile_cons_of_neg fun he => ?_
          have := (List.isChain_cons_cons.1 hc.apart).1
          exact this ⟨hdcode, hasMark_iff.2 ⟨m, by simpa using he, hcode⟩⟩
      have hreach : reach m r = 0 := by rw [reach, hnone, List.length_nil]
      have honly : ∀ n ∈ d.marks, n = m := by
        intro n hn
        by_contra hne
        rcases farthest_spec (h d (List.mem_cons_self ..)) hm n hn hne with hlt | ⟨-, hout⟩
        · omega
        · exact hc.plain d (List.mem_cons_self ..) hdcode
            (hasMark_iff.2 ⟨n, hn, strikethrough_of_outer hcode hout⟩)
      have hbare : (d.without m).marks = [] := by
        refine List.eq_nil_iff_forall_not_mem.2 fun n hn => ?_
        obtain ⟨hn, hne⟩ := List.mem_filter.1 hn
        exact absurd (honly n hn) (by simpa using hne)
      rw [hnone, List.map_cons, List.map_nil, group_leaf hbare, group_nil]
      exact ⟨_, rfl⟩
    · exact (hc.of_isInfix ((List.prefix_cons_inj d).2 (List.takeWhile_prefix _)).isInfix).map_without m
    · exact hc.of_isInfix ((List.dropWhile_suffix _).trans (List.suffix_cons d r)).isInfix

theorem keepsCode_of_codeApart (hs : ∀ e ∈ d.nodes, standardGrammar.Sound e)
    (hcode : ∀ e ∈ d.nodes, CodeApart e.content) : KeepsCode d := fun e he =>
  codeSingle_group _ (fun f hf => (hs f (mem_nodes_of_mem_content he hf)).marks) (hcode e he)

/-- An edited document comes back from its tree as it was. -/
theorem documentOf_treeOf_of_makes {c : Composition} (hc : library.compose (places ["gfm", "html"]) = .ok c)
    (hd : c.grammar.Makes d) (htype : d.type = "doc") (hmarks : d.marks = []) (he : ∀ e ∈ d.nodes, Expressible e)
    (hcode : ∀ e ∈ d.nodes, CodeApart e.content) : ∃ t, c.treeOf d = .ok t ∧ c.documentOf t = .ok d := by
  obtain rfl : standard = c := Except.ok.inj (compose_standard.symm.trans hc)
  have hs := hd.sound ranked_standard
  obtain ⟨t, hup, ht⟩ := treeOf_sound hs htype
  exact ⟨t, ht, documentOf_of_up hs he (keepsCode_of_codeApart hs hcode) htype hmarks hup⟩

/-- A document with marks that run on, a task and a code block. -/
def note : Document :=
  ⟨"doc", ∅, [
    ⟨"heading", .ofList [("level", .int 2)], [
      ⟨"text", ∅, [], some "a", [⟨"link", .ofList [("href", .str "u"), ("title", .null)]⟩, ⟨"em", ∅⟩]⟩,
      ⟨"text", ∅, [], some "b", [⟨"em", ∅⟩]⟩,
      ⟨"text", ∅, [], some "c", [⟨"code", ∅⟩]⟩], none, []⟩,
    ⟨"list", .ofList [("ordered", .bool false), ("start", .int 1)], [
      ⟨"list_item", .ofList [("checked", .bool true)], [
        ⟨"paragraph", ∅, [⟨"text", ∅, [], some "d", [⟨"strong", ∅⟩, ⟨"strikethrough", ∅⟩]⟩], none, []⟩],
        none, []⟩], none, []⟩,
    ⟨"code_block", .ofList [("language", .str "c"), ("meta", .null)], [⟨"text", ∅, [], some "e", []⟩], none, []⟩],
    none, []⟩

/-- A made document with marks that run on, a task and a code block comes back from its tree. -/
theorem documentOf_treeOf_note : ∃ t, standard.treeOf note = .ok t ∧ standard.documentOf t = .ok note :=
  documentOf_treeOf_of_makes compose_standard (Grammar.makes_of_sound (by decide +kernel)) rfl rfl (by decide +kernel) (by decide +kernel)

end Catalog
end RichDoc
