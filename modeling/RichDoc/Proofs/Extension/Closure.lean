import RichDoc.Proofs.Extension.Composed

/-!
# Compositions and what requests reach

Whether a request composes is a question about the places it reaches, whatever order they are met in
(`Library.Composable`), so two requests that reach the same places compose both or neither, and their compositions
differ in nothing but order (`Composition.Agrees`).
-/

namespace RichDoc

/-- Two compositions have the same types, tables, keys, rules and transforms, if not in the same order. What hangs on
the order may differ: the ranks of the marks, and which of two commands a key has. -/
structure Composition.Agrees (c c' : Composition) : Prop where
  down : ∀ k, c.ofKind? k = c'.ofKind? k
  up : ∀ t, c.ofType? t = c'.ofType? t
  top : c.grammar.top = c'.grammar.top
  topType : c.grammar.topType? = c'.grammar.topType?
  nodes : c.grammar.nodes.Perm c'.grammar.nodes
  marks : (c.grammar.marks.map fun t => (t.name, t.spec)).Perm (c'.grammar.marks.map fun t => (t.name, t.spec))
  keys : (c.keys.map Prod.fst).Perm (c'.keys.map Prod.fst)
  rules : c.rules.Perm c'.rules
  transforms : c.transforms.Perm c'.transforms

namespace Library
open RichDoc.Composition Extension
open Relation (TransGen)
variable {lib : Library} {requested requested' : List Nat} {c c' : Composition} {S : Nat → Prop} {e : Extension}

/-- The extension stands at one of the places of `S`. -/
def Member (lib : Library) (S : Nat → Prop) (e : Extension) : Prop := ∃ i, S i ∧ lib[i]? = some e

/-- What the extensions at the places of `S` have to satisfy to go together. -/
structure Composable (lib : Library) (S : Nat → Prop) : Prop where
  acyclic : ∀ i, S i → ¬ TransGen lib.Needs i i
  whole : ∀ e, lib.Member S e → e.Whole
  apart : ∀ i j, S i → S j → i ≠ j → ∀ a ∈ lib[i]?, ∀ b ∈ lib[j]?, a.Apart b
  readable : ∀ e d, lib.Member S e → e.node? = some d → ∀ s ∈ d.2.content, ∃ x, Content.read s = .ok x ∧
    ∀ n ∈ x.names, ∃ e', lib.Member S e' ∧ ∃ d' ∈ e'.node?, n = d'.1 ∨ n ∈ d'.2.groups

theorem mem_members (hc : (lib.visit requested).circle = none) :
    e ∈ lib.members requested ↔ lib.Member (lib.Reaches requested) e := by
  rw [members, List.mem_filterMap]
  exact exists_congr fun i => and_congr_left fun _ => mem_order hc

theorem pairwise_members (hc : (lib.visit requested).circle = none) :
    (lib.members requested).Pairwise Apart ↔ ∀ i j, lib.Reaches requested i → lib.Reaches requested j → i ≠ j →
      ∀ a ∈ lib[i]?, ∀ b ∈ lib[j]?, a.Apart b := by
  rw [members, List.pairwise_filterMap]
  constructor
  · intro h i j hi hj hij
    have hsymm : Std.Symm fun i j : Nat => ∀ a, lib[i]? = some a → ∀ b, lib[j]? = some b → a.Apart b :=
      ⟨fun i j hij b hb a ha => (hij a ha b hb).symm⟩
    exact h.forall ((mem_order hc).2 hi) ((mem_order hc).2 hj) hij
  · intro h
    refine (nodup_order lib requested).pairwise_of_forall_ne fun i hi j hj hij => ?_
    exact h i j ((mem_order hc).1 hi) ((mem_order hc).1 hj) hij

/-- The names that content expressions may use are the types and groups of the members. -/
theorem mem_namesOf_members {es : List Extension} {n : String} :
    n ∈ Grammar.namesOf (es.filterMap (·.node?)) ↔ ∃ e ∈ es, ∃ d ∈ e.node?, n = d.1 ∨ n ∈ d.2.groups := by
  simp only [Grammar.namesOf, List.mem_flatMap, List.mem_filterMap, List.mem_cons]
  constructor
  · rintro ⟨d, ⟨e, he, hd⟩, hn⟩
    exact ⟨e, he, d, hd, hn⟩
  · rintro ⟨e, he, d, hd, hn⟩
    exact ⟨d, ⟨e, he, hd⟩, hn⟩

theorem exists_grammar_iff {es : List Extension} : (∃ g, grammarOf es = .ok g) ↔
    ∀ e d, e ∈ es → e.node? = some d → ∀ s ∈ d.2.content, ∃ x, Content.read s = .ok x ∧
      ∀ n ∈ x.names, ∃ e', e' ∈ es ∧ ∃ d' ∈ e'.node?, n = d'.1 ∨ n ∈ d'.2.groups := by
  simp only [← mem_namesOf_members]
  constructor
  · rintro ⟨g, hg⟩ e d he hd
    exact (grammarOf_eq_ok.1 hg).1 d (List.mem_filterMap.2 ⟨e, he, hd⟩)
  · intro h
    refine ⟨_, grammarOf_eq_ok.2 ⟨fun d hd => ?_, rfl⟩⟩
    obtain ⟨e, he, hed⟩ := List.mem_filterMap.1 hd
    exact h e d he hed

theorem exists_compose_iff : (∃ c, lib.compose requested = .ok c) ↔ lib.Composable (lib.Reaches requested) := by
  constructor
  · rintro ⟨c, hcompose⟩
    obtain ⟨hc, hwhole, hapart, hg, -⟩ := compose_eq_ok.1 hcompose
    refine ⟨circle_visit_eq_none_iff.1 hc, ?_, (pairwise_members hc).1 hapart, ?_⟩
    · intro e he
      exact hwhole e ((mem_members hc).2 he)
    · simp only [← mem_members hc]
      exact exists_grammar_iff.1 ⟨_, hg⟩
  · intro h
    have hc := circle_visit_eq_none_iff.2 h.acyclic
    have hreadable := h.readable
    simp only [← mem_members hc] at hreadable
    obtain ⟨g, hg⟩ := exists_grammar_iff.2 hreadable
    refine ⟨of (lib.members requested) g, compose_eq_ok.2 ⟨hc, ?_, (pairwise_members hc).2 h.apart, hg, rfl⟩⟩
    intro e he
    exact h.whole e ((mem_members hc).1 he)

theorem members_perm (hreach : ∀ i, lib.Reaches requested' i ↔ lib.Reaches requested i)
    (hc : (lib.visit requested).circle = none) (hc' : (lib.visit requested').circle = none) :
    (lib.members requested).Perm (lib.members requested') := by
  refine List.Perm.filterMap _ ((List.perm_ext_iff_of_nodup (nodup_order ..) (nodup_order ..)).2 fun i => ?_)
  rw [mem_order hc, mem_order hc', hreach]

theorem agrees_of_perm {es es' : List Extension} {g g' : Grammar} (hp : es.Perm es') (hapart : es.Pairwise Apart)
    (hg : grammarOf es = .ok g) (hg' : grammarOf es' = .ok g') : (of es g).Agrees (of es' g') := by
  obtain ⟨-, hgrammar⟩ := grammarOf_eq_ok.1 hg
  obtain ⟨-, hgrammar'⟩ := grammarOf_eq_ok.1 hg'
  have htop : g.top = g'.top := by
    rw [hgrammar, hgrammar', topOf, topOf, find?_perm (hapart.imp Apart.kind) hp]
  have hnodes : g.nodes.Perm g'.nodes := by
    rw [hgrammar, hgrammar']
    exact (hp.filterMap _).map _
  exact {
    down := fun k => by rw [ofKind?_of, ofKind?_of, find?_perm (hapart.imp Apart.kind) hp]
    up := fun t => by rw [ofType?_of, ofType?_of, find?_perm (hapart.imp Apart.type) hp]
    top := htop
    topType := by
      show g.topType? = g'.topType?
      have hnodup := nodup_nodes_of_grammarOf hapart hg
      rw [Grammar.topType?, Grammar.topType?, htop]
      exact congrArg _ (funext fun n => Grammar.nodeType?_perm hnodup hnodes)
    nodes := hnodes
    marks := by
      show (g.marks.map _).Perm (g'.marks.map _)
      rw [hgrammar, hgrammar', Grammar.map_name_markTypes, Grammar.map_name_markTypes]
      exact hp.filterMap _
    keys := by
      have hkeys := (hp.flatMap_right (·.keys)).map Prod.fst
      show ((firstOfEach (es.flatMap (·.keys))).map _).Perm ((firstOfEach (es'.flatMap (·.keys))).map _)
      rw [map_fst_firstOfEach, map_fst_firstOfEach]
      refine (List.perm_ext_iff_of_nodup (nodup_eraseDups _) (nodup_eraseDups _)).2 fun k => ?_
      rw [List.mem_eraseDups, List.mem_eraseDups, hkeys.mem_iff]
    rules := hp.flatMap_right _
    transforms := hp.flatMap_right _ }

/-- Whether a request composes, and what it composes to but for the order, depends on what it reaches alone. -/
theorem compose_of_reaches : ((∃ c, lib.compose requested = .ok c) ↔ lib.Composable (lib.Reaches requested)) ∧
    ∀ requested', (∀ i, lib.Reaches requested' i ↔ lib.Reaches requested i) →
      ((∃ c, lib.compose requested' = .ok c) ↔ ∃ c, lib.compose requested = .ok c) ∧
      ∀ c c', lib.compose requested = .ok c → lib.compose requested' = .ok c' → c.Agrees c' := by
  refine ⟨exists_compose_iff, fun requested' hreach => ⟨?_, fun c c' h h' => ?_⟩⟩
  · rw [exists_compose_iff, exists_compose_iff, show lib.Reaches requested' = lib.Reaches requested from
      funext fun i => propext (hreach i)]
  · obtain ⟨hcircle, -, hapart, hg, hc⟩ := compose_eq_ok.1 h
    obtain ⟨hcircle', -, -, hg', hc'⟩ := compose_eq_ok.1 h'
    rw [hc, hc']
    exact agrees_of_perm (members_perm hreach hcircle hcircle') hapart hg hg'

theorem agrees_pages :
    ∃ c c', pages.compose [0, 3] = .ok c ∧ pages.compose [4, 2, 0, 2] = .ok c' ∧ c.Agrees c' := by
  have hvisit : pages.visit [4, 2, 0, 2] = ⟨[4, 2, 3, 0, 1], none⟩ := by simp [visit, visitFrom, pages]
  have hreach : ∀ i, pages.Reaches [4, 2, 0, 2] i ↔ pages.Reaches [0, 3] i := by
    intro i
    rw [← mem_order (congrArg Visited.circle hvisit), ← mem_order (congrArg Visited.circle visit_pages), hvisit,
      visit_pages]
    simp only [List.mem_cons, List.not_mem_nil, or_false]
    omega
  obtain ⟨hboth, hagree⟩ := compose_of_reaches.2 _ hreach
  obtain ⟨c, hc⟩ := exists_compose_pages
  obtain ⟨c', hc'⟩ := hboth.2 ⟨c, hc⟩
  exact ⟨c, c', hc, hc', hagree c c' hc hc'⟩

end Library
end RichDoc
