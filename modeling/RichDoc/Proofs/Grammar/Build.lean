import Mathlib.Data.List.Nodup
import RichDoc.Proofs.Grammar.Marks
import RichDoc.Proofs.Results

/-!
# Building grammars

`Grammar.build` succeeds exactly when each content expression can be read and names only declared types and their
groups (`Grammar.Readable`); it then holds a node type for each declared node and a mark type for each declared mark,
in the order of the declarations (`build_eq_ok`).
-/

namespace RichDoc
namespace Grammar
variable {known : List String} {nodes : List (String × NodeSpec)} {marks : List (String × MarkSpec)}
variable {top : Option String} {g : Grammar} {n : String}

/-- A content expression, if there is one, can be read and names only what is known. -/
def Readable (known : List String) (text : Option String) : Prop :=
  ∀ s ∈ text, ∃ x, Content.read s = .ok x ∧ ∀ n ∈ x.names, n ∈ known

/-- The node type of a declaration whose content expression can be read. -/
def typeOf (d : String × NodeSpec) : NodeType :=
  ⟨d.1, d.2, d.2.content.bind fun s => (Content.read s).toOption⟩

/-- The content of a node type is its content expression, read. -/
theorem Readable.map_ok_content {d : String × NodeSpec} (h : Readable known d.2.content) :
    (typeOf d).content.map .ok = d.2.content.map Content.read := by
  unfold typeOf
  cases hs : d.2.content with
  | none => rfl
  | some s =>
    obtain ⟨x, hx, -⟩ := h s hs
    simp [hx, Except.toOption]

theorem Readable.names_known {d : String × NodeSpec} {x : Content} (h : Readable known d.2.content)
    (hx : (typeOf d).content = some x) : ∀ n ∈ x.names, n ∈ known := by
  obtain ⟨s, hs, hread⟩ := Option.bind_eq_some_iff.1 hx
  obtain ⟨y, hy, hknown⟩ := h s hs
  rw [hy] at hread
  obtain rfl := Option.some.inj hread
  exact hknown

theorem readContent_eq_ok {node : String} {text : Option String} {x : Option Content} :
    readContent known node text = .ok x ↔
      Readable known text ∧ x = text.bind fun s => (Content.read s).toOption := by
  cases text with
  | none => simp [readContent, Readable, eq_comm]
  | some s =>
    cases hs : Content.read s with
    | error e => simp [readContent, Readable, hs]
    | ok c =>
      cases hn : c.names.find? fun n => !known.contains n with
      | some n =>
        have hmem := List.mem_of_find?_eq_some hn
        have hnew : n ∉ known := by simpa using List.find?_some hn
        simp only [readContent, hs, hn, Readable, reduceCtorEq, false_iff]
        rintro ⟨hread, -⟩
        obtain ⟨c', hc', hknown⟩ := hread s rfl
        obtain rfl := Except.ok.inj (hs.symm.trans hc')
        exact hnew (hknown n hmem)
      | none =>
        have hknown : ∀ n ∈ c.names, n ∈ known := by simpa using List.find?_eq_none.1 hn
        have hread : Readable known (some s) := by
          intro s' hs'
          obtain rfl := Option.some.inj hs'
          exact ⟨c, hs, hknown⟩
        have hx : (some s).bind (fun s => (Content.read s).toOption) = some c := by
          rw [Option.bind_some, hs]
          rfl
        simp only [readContent, hs, hn, hread, hx, true_and, Except.ok.injEq, eq_comm]

theorem nodeTypes_eq_ok {ts : List NodeType} :
    nodeTypes known nodes = .ok ts ↔ (∀ d ∈ nodes, Readable known d.2.content) ∧ ts = nodes.map typeOf := by
  induction nodes generalizing ts with
  | nil => simp [nodeTypes, eq_comm]
  | cons d r ih =>
    obtain ⟨name, spec⟩ := d
    rw [nodeTypes, bind_eq_ok]
    constructor
    · rintro ⟨x, hx, h⟩
      obtain ⟨us, hus, h⟩ := bind_eq_ok.1 h
      obtain ⟨hread, rfl⟩ := readContent_eq_ok.1 hx
      obtain ⟨hreads, rfl⟩ := ih.1 hus
      exact ⟨List.forall_mem_cons.2 ⟨hread, hreads⟩, (Except.ok.inj h).symm⟩
    · rintro ⟨hreads, rfl⟩
      obtain ⟨hread, hreads⟩ := List.forall_mem_cons.1 hreads
      exact ⟨_, readContent_eq_ok.2 ⟨hread, rfl⟩, bind_eq_ok.2 ⟨_, ih.2 ⟨hreads, rfl⟩, rfl⟩⟩

theorem build_eq_ok : build nodes marks top = .ok g ↔
    (∀ d ∈ nodes, Readable (namesOf nodes) d.2.content) ∧ g = ⟨nodes.map typeOf, markTypes 0 marks, top⟩ := by
  rw [build, bind_eq_ok]
  constructor
  · rintro ⟨ts, hts, h⟩
    obtain ⟨hreads, rfl⟩ := nodeTypes_eq_ok.1 hts
    exact ⟨hreads, (Except.ok.inj h).symm⟩
  · rintro ⟨hreads, rfl⟩
    exact ⟨_, nodeTypes_eq_ok.2 ⟨hreads, rfl⟩, rfl⟩

/-- The rank of a mark type is its place among the declarations. -/
theorem markTypes_eq (k : Nat) (marks : List (String × MarkSpec)) :
    markTypes k marks = marks.mapIdx fun i m => ⟨m.1, k + i, m.2⟩ := by
  induction marks generalizing k with
  | nil => rfl
  | cons m r ih =>
    rw [markTypes, ih, List.mapIdx_cons]
    congr 2
    funext i m
    rw [Nat.add_assoc, Nat.add_comm 1]

theorem map_name_markTypes (k : Nat) (marks : List (String × MarkSpec)) :
    (markTypes k marks).map (fun t => (t.name, t.spec)) = marks := by
  induction marks generalizing k with
  | nil => rfl
  | cons m r ih => rw [markTypes, List.map_cons, ih]

/-! ### Names -/

theorem nodeType?_eq_some_iff {t : NodeType} (h : (g.nodes.map (·.name)).Nodup) :
    g.nodeType? n = some t ↔ t ∈ g.nodes ∧ t.name = n := by
  constructor
  · intro hf
    exact ⟨List.mem_reverse.1 (List.mem_of_find?_eq_some hf), by simpa using List.find?_some hf⟩
  · rintro ⟨ht, rfl⟩
    cases hf : g.nodeType? t.name with
    | none =>
      have hnone := List.find?_eq_none.1 hf t (List.mem_reverse.2 ht)
      simp at hnone
    | some u =>
      have hu : u ∈ g.nodes := List.mem_reverse.1 (List.mem_of_find?_eq_some hf)
      have hname : u.name = t.name := by simpa using List.find?_some hf
      rw [List.inj_on_of_nodup_map h hu ht hname]

theorem nodeType?_perm {g' : Grammar} (h : (g.nodes.map (·.name)).Nodup) (hp : g.nodes.Perm g'.nodes) :
    g.nodeType? n = g'.nodeType? n := by
  have h' : (g'.nodes.map (·.name)).Nodup := (hp.map _).nodup_iff.1 h
  refine Option.ext fun t => ?_
  rw [nodeType?_eq_some_iff h, nodeType?_eq_some_iff h', hp.mem_iff]

/-- In a grammar with distinct names, what satisfies a name are the type of the name and the types of the group. -/
theorem isA_iff {t : NodeType} (h : (g.nodes.map (·.name)).Nodup) (ht : t ∈ g.nodes) :
    g.isA t.name n ↔ t.name = n ∨ n ∈ t.spec.groups := by
  simp [isA, (nodeType?_eq_some_iff h).2 ⟨ht, rfl⟩, NodeType.inGroup]

/-- Each name that content expressions may use is satisfied by a node type. -/
theorem exists_isA (h : (nodes.map Prod.fst).Nodup) (hg : g.nodes = nodes.map typeOf) (hn : n ∈ namesOf nodes) :
    ∃ t ∈ g.nodes, g.isA t.name n := by
  have hnodup : (g.nodes.map (·.name)).Nodup := by
    rw [hg, List.map_map]
    exact h
  obtain ⟨d, hd, hn⟩ := List.mem_flatMap.1 hn
  have ht : typeOf d ∈ g.nodes := hg ▸ List.mem_map_of_mem hd
  refine ⟨typeOf d, ht, (isA_iff hnodup ht).2 ?_⟩
  rcases List.mem_cons.1 hn with rfl | hn
  · exact .inl rfl
  · exact .inr hn

end Grammar
end RichDoc
