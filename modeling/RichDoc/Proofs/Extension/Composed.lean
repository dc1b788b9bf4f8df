import RichDoc.Proofs.Extension.Gathering

/-!
# What a composition holds

`Composition.Holds c lib order`: the composition `c` has the extensions at the places of `order`, in this order, and
its grammar and tables are theirs. `Library.compose` gives a composition that holds the extensions that a depth-first
walk from the requested ones meets, in the order of first visits (`exists_holds_of_compose`): it is what a composer has
gathered from them (`compose_eq_ok`).
-/

namespace RichDoc

namespace Composition
open Extension
variable {c : Composition} {lib : Library} {order : List Nat} {es : List Extension} {g : Grammar}

/-- The names of the node types and the mark types. -/
def names (c : Composition) : List String := c.grammar.nodes.map (·.name) ++ c.grammar.marks.map (·.name)

/-- The composition of the extensions at the places of `order`. Its types are their fragments in this order, a mark
ranked by its place among the marks; its tables find for each type and each kind the extension that declares it; of
two bindings of a key the first counts. -/
structure Holds (c : Composition) (lib : Library) (order : List Nat) : Prop where
  extensions : c.extensions.map some = order.map (lib[·]?)
  nodes : c.grammar.nodes.map (fun t => (t.name, t.spec)) = c.extensions.filterMap (·.node?)
  contents : ∀ t ∈ c.grammar.nodes, t.content.map .ok = t.spec.content.map Content.read
  marks : c.grammar.marks = (c.extensions.filterMap (·.mark?)).mapIdx fun rank m => ⟨m.1, rank, m.2⟩
  nodup : c.names.Nodup
  apart : c.extensions.Pairwise Apart
  up : ∀ t e, c.ofType? t = some e ↔ e ∈ c.extensions ∧ e.type = some t
  upNames : ∀ t, (c.ofType? t).isSome ↔ t ∈ c.names
  types : c.types.Perm c.names
  down : ∀ k e, c.ofKind? k = some e ↔ e ∈ c.extensions ∧ e.kind = some k
  kinds : c.kinds.Perm (c.extensions.filterMap (·.kind))
  top : ∀ e ∈ c.extensions, e.kind = some .root → ∃ t ∈ c.grammar.nodes, e.type = some t.name ∧
    c.grammar.topType? = some t
  topless : (∀ e ∈ c.extensions, e.kind ≠ some .root) → c.grammar.top = none
  atoms : ∀ t ∈ c.grammar.nodes, ∀ x ∈ t.content, ∀ n ∈ x.names, ∃ u ∈ c.grammar.nodes, c.grammar.isA u.name n
  keys : c.keys.map Prod.fst = ((c.extensions.flatMap (·.keys)).map Prod.fst).eraseDups
  commands : ∀ k, c.bindings.command? k = (c.extensions.flatMap (·.keys)).lookup k
  rules : c.rules = c.extensions.flatMap (·.rules)
  transforms : c.transforms = c.extensions.flatMap (·.transforms)

/-! ### Names and tables -/

theorem eq_of_type {a b : Extension} {t : String} (h : es.Pairwise Apart) (ha : a ∈ es) (hb : b ∈ es)
    (hat : a.type = some t) (hbt : b.type = some t) : a = b := by
  have htable := h.imp Apart.type
  have hfind := (find?_eq_some_iff htable).2 ⟨ha, hat⟩
  rw [(find?_eq_some_iff htable).2 ⟨hb, hbt⟩] at hfind
  exact (Option.some.inj hfind).symm

theorem nodup_declared {α : Type} {f : Extension → Option (String × α)}
    (hf : ∀ e d, f e = some d → e.type = some d.1) (h : es.Pairwise Apart) :
    ((es.filterMap f).map Prod.fst).Nodup := by
  refine List.pairwise_map.2 (List.pairwise_filterMap.2 (h.imp fun {a b} hab d hd d' hd' heq => ?_))
  exact hab.type d.1 (hf a d hd) (heq ▸ hf b d' hd')

theorem nodup_nodes (h : es.Pairwise Apart) : ((es.filterMap (·.node?)).map Prod.fst).Nodup :=
  nodup_declared (fun _ _ hd => (node?_eq_some.1 hd).1) h

theorem nodup_marks (h : es.Pairwise Apart) : ((es.filterMap (·.mark?)).map Prod.fst).Nodup :=
  nodup_declared (fun _ _ hd => (mark?_eq_some.1 hd).1) h

theorem nodup_nodes_of_grammarOf (h : es.Pairwise Apart) (hg : grammarOf es = .ok g) :
    (g.nodes.map (·.name)).Nodup := by
  rw [(grammarOf_eq_ok.1 hg).2, List.map_map]
  exact nodup_nodes h

/-- No name is that of two types, nodes and marks taken together. -/
theorem nodup_types (h : es.Pairwise Apart) :
    ((es.filterMap (·.node?)).map Prod.fst ++ (es.filterMap (·.mark?)).map Prod.fst).Nodup := by
  refine List.nodup_append.2 ⟨nodup_nodes h, nodup_marks h, ?_⟩
  rintro s hs s' hs' rfl
  obtain ⟨d, hd, rfl⟩ := List.mem_map.1 hs
  obtain ⟨d', hd', heq⟩ := List.mem_map.1 hs'
  obtain ⟨a, ha, had⟩ := List.mem_filterMap.1 hd
  obtain ⟨b, hb, hbd⟩ := List.mem_filterMap.1 hd'
  obtain ⟨hat, haf⟩ := node?_eq_some.1 had
  obtain ⟨hbt, hbf⟩ := mark?_eq_some.1 hbd
  obtain rfl := eq_of_type h ha hb hat (heq ▸ hbt)
  rw [haf] at hbf
  cases hbf

theorem mem_types (h : ∀ e ∈ es, e.Whole) {t : String} :
    t ∈ (es.filterMap (·.node?)).map Prod.fst ++ (es.filterMap (·.mark?)).map Prod.fst ↔
      ∃ e ∈ es, e.type = some t := by
  rw [List.mem_append, List.mem_map, List.mem_map]
  constructor
  · rintro (⟨d, hd, rfl⟩ | ⟨d, hd, rfl⟩)
    · obtain ⟨e, he, hed⟩ := List.mem_filterMap.1 hd
      exact ⟨e, he, (node?_eq_some.1 hed).1⟩
    · obtain ⟨e, he, hed⟩ := List.mem_filterMap.1 hd
      exact ⟨e, he, (mark?_eq_some.1 hed).1⟩
  · rintro ⟨e, he, ht⟩
    rcases (h e he).exists_of_type ht with ⟨spec, hspec⟩ | ⟨spec, hspec⟩
    · exact .inl ⟨_, List.mem_filterMap.2 ⟨e, he, hspec⟩, rfl⟩
    · exact .inr ⟨_, List.mem_filterMap.2 ⟨e, he, hspec⟩, rfl⟩

theorem names_of_eq {top : Option String} {nodes : List (String × NodeSpec)} {marks : List (String × MarkSpec)}
    (h : c.grammar = ⟨nodes.map Grammar.typeOf, Grammar.markTypes 0 marks, top⟩) :
    c.names = nodes.map Prod.fst ++ marks.map Prod.fst := by
  have hmarks : (Grammar.markTypes 0 marks).map (·.name) = marks.map Prod.fst := by
    rw [← Grammar.map_name_markTypes 0 marks, List.map_map, Grammar.map_name_markTypes]
    rfl
  rw [names, h, hmarks, List.map_map]
  rfl

/-- The type that stands for the root is that of the node which the extension that claims the root declares. -/
theorem exists_topType {e : Extension} (hwhole : ∀ e ∈ es, e.Whole) (hapart : es.Pairwise Apart)
    (hg : grammarOf es = .ok g) (he : e ∈ es) (hroot : e.kind = some .root) :
    ∃ t ∈ g.nodes, e.type = some t.name ∧ g.topType? = some t := by
  obtain ⟨-, hgrammar⟩ := grammarOf_eq_ok.1 hg
  obtain ⟨spec, hf⟩ := (hwhole e he).root hroot
  obtain ⟨s, hs⟩ := Option.isSome_iff_exists.1 ((hwhole e he).typed.2 (by rw [hf]; rfl))
  have hmem : Grammar.typeOf (s, spec) ∈ g.nodes := by
    rw [hgrammar]
    exact List.mem_map_of_mem (List.mem_filterMap.2 ⟨e, he, node?_eq_some.2 ⟨hs, hf⟩⟩)
  have htop : g.top = some s := by
    rw [hgrammar, topOf, (find?_eq_some_iff (hapart.imp Apart.kind)).2 ⟨he, hroot⟩]
    exact hs
  refine ⟨Grammar.typeOf (s, spec), hmem, hs, ?_⟩
  rw [Grammar.topType?, htop]
  exact (Grammar.nodeType?_eq_some_iff (nodup_nodes_of_grammarOf hapart hg)).2 ⟨hmem, rfl⟩

theorem map_fst_tableOf {κ : Type} (key : Extension → Option κ) (es : List Extension) :
    (tableOf key es).map Prod.fst = es.filterMap key := by
  rw [tableOf, List.map_filterMap]
  exact List.filterMap_congr fun e _ => by simp [Function.comp_def]

theorem ofType?_of_eq_some_iff (h : es.Pairwise Apart) {t : String} {e : Extension} :
    (of es g).ofType? t = some e ↔ e ∈ es ∧ e.type = some t := by
  rw [ofType?_of, find?_eq_some_iff (h.imp Apart.type)]

theorem ofKind?_of_eq_some_iff (h : es.Pairwise Apart) {k : Kind} {e : Extension} :
    (of es g).ofKind? k = some e ↔ e ∈ es ∧ e.kind = some k := by
  rw [ofKind?_of, find?_eq_some_iff (h.imp Apart.kind)]

/-- The types that are converted are the node types and the mark types. -/
theorem types_of_perm (hwhole : ∀ e ∈ es, e.Whole) (hapart : es.Pairwise Apart) : (of es g).types.Perm
    ((es.filterMap (·.node?)).map Prod.fst ++ (es.filterMap (·.mark?)).map Prod.fst) := by
  have hkeys : (of es g).byType.map Prod.fst = es.filterMap (·.type) := map_fst_tableOf _ es
  have hnodup : (es.filterMap (·.type)).Nodup := by
    refine List.pairwise_filterMap.2 (hapart.imp fun {a b} hab t ht u hu htu => ?_)
    exact hab.type t ht (htu ▸ hu)
  rw [types, hkeys]
  refine (List.mergeSort_perm ..).trans ((List.perm_ext_iff_of_nodup hnodup (nodup_types hapart)).2 fun t => ?_)
  rw [mem_types hwhole, List.mem_filterMap]

/-- Extensions that go together, with their grammar, are all that a composition of them holds. -/
theorem holds_of (hplaces : es.map some = order.map (lib[·]?)) (hwhole : ∀ e ∈ es, e.Whole) (hapart : es.Pairwise Apart)
    (hg : grammarOf es = .ok g) : (of es g).Holds lib order := by
  obtain ⟨hreads, hgrammar⟩ := grammarOf_eq_ok.1 hg
  have hnames : (of es g).names = (es.filterMap (·.node?)).map Prod.fst ++ (es.filterMap (·.mark?)).map Prod.fst :=
    names_of_eq hgrammar
  exact {
    extensions := hplaces
    nodes := by
      show g.nodes.map _ = _
      rw [hgrammar, List.map_map]
      exact List.map_id _
    contents := by
      show ∀ t ∈ g.nodes, _
      intro t ht
      rw [hgrammar] at ht
      obtain ⟨d, hd, rfl⟩ := List.mem_map.1 ht
      exact (hreads d hd).map_ok_content
    marks := by
      show g.marks = _
      rw [hgrammar, Grammar.markTypes_eq]
      simp only [Nat.zero_add]
      rfl
    nodup := hnames ▸ nodup_types hapart
    apart := hapart
    up := fun t e => ofType?_of_eq_some_iff hapart
    upNames := by
      intro t
      rw [hnames, mem_types hwhole, Option.isSome_iff_exists]
      exact exists_congr fun e => ofType?_of_eq_some_iff hapart
    types := hnames ▸ types_of_perm hwhole hapart
    down := fun k e => ofKind?_of_eq_some_iff hapart
    kinds := (List.mergeSort_perm ..).trans (.of_eq (map_fst_tableOf _ es))
    top := fun e he hroot => exists_topType hwhole hapart hg he hroot
    topless := by
      intro hnone
      have hfind : es.find? (·.kind == some .root) = none := find?_eq_none_iff.2 hnone
      show g.top = none
      rw [hgrammar, topOf, hfind]
      rfl
    atoms := by
      show ∀ t ∈ g.nodes, _
      intro t ht x hx n hn
      rw [hgrammar] at ht
      obtain ⟨d, hd, rfl⟩ := List.mem_map.1 ht
      have hknown := (hreads d hd).names_known hx n hn
      exact Grammar.exists_isA (nodup_nodes hapart) (congrArg Grammar.nodes hgrammar) hknown
    keys := map_fst_firstOfEach _
    commands := lookup_firstOfEach _
    rules := rfl
    transforms := rfl }

end Composition

namespace Library
open RichDoc.Composition Extension
variable {lib : Library} {requested : List Nat} {c : Composition}

/-! ### The visit -/

theorem map_some_filterMap {is : List Nat} (h : ∀ i ∈ is, i < lib.size) :
    (is.filterMap (lib[·]?)).map some = is.map (lib[·]?) := by
  induction is with
  | nil => rfl
  | cons i r ih =>
    obtain ⟨hi, hr⟩ := List.forall_mem_cons.1 h
    have he : lib[i]? = some lib[i] := Array.getElem?_eq_getElem hi
    rw [List.filterMap_cons_some he, List.map_cons, List.map_cons, he, ih hr]

/-- A composition holds the extensions that a walk meets, each once, in the order of first visits. -/
theorem exists_holds_of_compose (h : lib.compose requested = .ok c) :
    ∃ l, lib.Walk requested l ∧ (∀ i, i ∈ l.eraseDups ↔ lib.Reaches requested i) ∧ l.eraseDups.Nodup ∧
      c.Holds lib l.eraseDups := by
  obtain ⟨hcircle, hwhole, hapart, hg, hc⟩ := compose_eq_ok.1 h
  obtain ⟨l, hl, ho⟩ := exists_walk_visit hcircle
  have hreached : ∀ i, i ∈ l.eraseDups ↔ lib.Reaches requested i := fun i => ho ▸ mem_order hcircle
  have hplaces : (lib.members requested).map some = l.eraseDups.map (lib[·]?) := by
    rw [members, ho]
    exact map_some_filterMap fun i hi => ((hreached i).1 hi).1
  have hholds := holds_of hplaces hwhole hapart hg
  rw [← hc] at hholds
  exact ⟨l, hl, hreached, nodup_eraseDups l, hholds⟩

/-- Paragraphs, and quotations that need them; a page binds a key before paragraphs do. -/
def pages : Library := #[
  { name := "page", kind := some .root, type := some "page",
    fragment := some (.node { content := some "block+" }), requires := [2, 1], keys := [("Enter", .named "split")] },
  { name := "quote", kind := some .blockquote, type := some "quote",
    fragment := some (.node { content := some "block*", groups := ["block"] }), requires := [2] },
  { name := "paragraph", kind := some .paragraph, type := some "paragraph",
    fragment := some (.node { content := some "text*", groups := ["block"] }), requires := [3, 4],
    keys := [("Enter", .insertNode "paragraph"), ("Mod-b", .toggleMark "strong")] },
  { name := "text", kind := some .text, type := some "text", fragment := some (.node {}) },
  { name := "strong", kind := some .strong, type := some "strong", fragment := some (.mark {}) }]

theorem visit_pages : pages.visit [0, 3] = ⟨[0, 2, 3, 4, 1], none⟩ := by
  simp [visit, visitFrom, pages]

theorem exists_compose_pages : ∃ c, pages.compose [0, 3] = .ok c := by
  have hmembers : pages.members [0, 3] = [0, 2, 3, 4, 1].filterMap (pages[·]?) := by rw [members, visit_pages]
  have hwhole : ∀ e ∈ pages.members [0, 3], e.Whole := by
    rw [hmembers]
    decide +kernel
  have hapart : (pages.members [0, 3]).Pairwise Apart := by
    rw [hmembers]
    decide +kernel
  obtain ⟨g, hg⟩ : ∃ g, grammarOf (pages.members [0, 3]) = .ok g := by
    rw [hmembers]
    exact exists_of_toBool (by decide +kernel)
  exact ⟨.of _ g, compose_eq_ok.2 ⟨congrArg Visited.circle visit_pages, hwhole, hapart, hg, rfl⟩⟩

theorem holds_pages : ∃ c, pages.compose [0, 3] = .ok c ∧ c.Holds pages [0, 2, 3, 4, 1] := by
  obtain ⟨l, hl, ho⟩ := exists_walk_visit (congrArg Visited.circle visit_pages)
  obtain ⟨c, hc⟩ := exists_compose_pages
  obtain ⟨l', hl', -, -, hholds⟩ := exists_holds_of_compose hc
  rw [hl'.unique hl, ← ho, visit_pages] at hholds
  exact ⟨c, hc, hholds⟩

end Library
end RichDoc
