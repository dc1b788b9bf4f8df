import RichDoc.Proofs.Catalog.Attributes
import RichDoc.Proofs.Catalog.Types
import RichDoc.Proofs.Tree.Nodes

/-!
# The marks that a tree stands for

Emphasis, strong, delete, link and inline code stand for marks. `Node.marksOver` lists, leaf by leaf, the marks
over what is below a node; a leaf is inline code or a node that stands for no mark. `Nested` is the order in which
marks can be opened again from this list alone.
-/

namespace RichDoc

/-- The mark that a node stands for around its children. -/
def Kind.mark? (as : Data) : Kind → Option Mark
  | .emphasis => some ⟨"em", ∅⟩
  | .strong => some ⟨"strong", ∅⟩
  | .delete => some ⟨"strikethrough", ∅⟩
  | .link => some ⟨"link", .ofList [("href", .str ((as.str? "url").getD "")), ("title", Catalog.orNull (as.str? "title"))]⟩
  | _ => none

/-- The kinds of nodes without children. -/
def Kind.isLeaf : Kind → Bool
  | .text | .html | .code | .inlineCode | .image | .break | .thematicBreak => true
  | _ => false

/-- The mark of inline code. -/
def Mark.code : Mark := ⟨"code", ∅⟩

/-- The marks that all of the lists have. -/
def Mark.common : List (List Mark) → List Mark
  | [] => []
  | ms :: r => ms.filter fun m => r.all (·.contains m)

namespace Node

/-- The mark that a node stands for around its children. -/
def mark? (n : Node) : Option Mark := n.kind.mark? n.data

mutual
/-- The marks over each leaf of a node. -/
def marksOver : Node → List (List Mark)
  | ⟨k, _, cs, _, as⟩ =>
    match k.mark? as with
    | some m => (marksOverBelow? cs).map (m :: ·)
    | none => if k = .inlineCode then [[.code]] else [[]]

/-- The marks over each leaf of a list of children that may be absent. -/
def marksOverBelow? : Option (List Node) → List (List Mark)
  | none => []
  | some cs => marksOverBelow cs

/-- The marks over each leaf of several nodes. -/
def marksOverBelow : List Node → List (List Mark)
  | [] => []
  | n :: r => marksOver n ++ marksOverBelow r
end

variable {n k : Node} {m : Mark} {ns : List Node}

theorem marksOver_of_mark (h : n.mark? = some m) : n.marksOver = (marksOverBelow n.childList).map (m :: ·) := by
  obtain ⟨k, v, cs, p, as⟩ := n
  rw [mark?] at h
  rw [marksOver, h]
  cases cs <;> rfl

theorem marksOver_of_none (h : n.mark? = none) : n.marksOver = if n.kind = .inlineCode then [[.code]] else [[]] := by
  obtain ⟨k, v, cs, p, as⟩ := n
  rw [mark?] at h
  rw [marksOver, h]

theorem shape_eq_iff : k.shape = n.shape ↔ k.kind = n.kind ∧ k.children.map shapes = n.children.map shapes := by
  obtain ⟨k, v, cs, p, as⟩ := k
  obtain ⟨l, w, ds, q, bs⟩ := n
  cases cs <;> cases ds <;> simp [shape, shapes?]

theorem shapes_childList (h : k.shape = n.shape) : shapes k.childList = shapes n.childList := by
  have hchildren := (shape_eq_iff.1 h).2
  unfold childList
  cases hk : k.children <;> cases hn : n.children <;> simp_all

end Node

namespace Mark
variable {m : Mark}

theorem mem_common {l : List (List Mark)} (h : l ≠ []) : m ∈ common l ↔ ∀ ms ∈ l, m ∈ ms := by
  obtain ⟨ms, r, rfl⟩ := List.exists_cons_of_ne_nil h
  simp [common]

end Mark

namespace Catalog
open Document

/-- A node that has children exactly if its kind is one with children, text if it is one of text, and no mark of
one type under another. -/
structure Formed (n : Node) : Prop where
  children : n.children.isSome ↔ ¬ n.kind.isLeaf
  value : n.kind = .text ∨ n.kind = .inlineCode → n.value.getD "" ≠ ""
  inhabited : n.mark?.isSome → n.childList ≠ []
  once : ∀ ms ∈ n.marksOver, (ms.map Mark.type).Nodup

instance : DecidablePred Formed := fun n =>
  decidable_of_iff ((n.children.isSome ↔ ¬ n.kind.isLeaf) ∧
    (n.kind = .text ∨ n.kind = .inlineCode → n.value.getD "" ≠ "") ∧ (n.mark?.isSome → n.childList ≠ []) ∧
    ∀ ms ∈ n.marksOver, (ms.map Mark.type).Nodup)
    ⟨fun ⟨h₁, h₂, h₃, h₄⟩ => ⟨h₁, h₂, h₃, h₄⟩, fun ⟨h₁, h₂, h₃, h₄⟩ => ⟨h₁, h₂, h₃, h₄⟩⟩

/-- No mark over all leaves of one child goes on over the first leaf of the next, and a mark over all leaves of a
mark is of higher rank. -/
structure Nested (n : Node) : Prop where
  apart : n.childList.IsChain fun a b => ∀ m ∈ Mark.common a.marksOver, ∀ ms ∈ b.marksOver.head?, m ∉ ms
  outer : ∀ m ∈ n.mark?, ∀ m' ∈ Mark.common (Node.marksOverBelow n.childList), standardGrammar.Outer m m'

instance : DecidablePred Nested := fun n =>
  decidable_of_iff
    ((n.childList.IsChain fun a b => ∀ m ∈ Mark.common a.marksOver, ∀ ms ∈ b.marksOver.head?, m ∉ ms) ∧
      ∀ m ∈ n.mark?, ∀ m' ∈ Mark.common (Node.marksOverBelow n.childList), standardGrammar.Outer m m')
    ⟨fun ⟨h₁, h₂⟩ => ⟨h₁, h₂⟩, fun ⟨h₁, h₂⟩ => ⟨h₁, h₂⟩⟩

variable {x : NodeConverter} {y : MarkConverter} {n k : Node} {m : Mark}

theorem isSome_mark?_iff : n.mark?.isSome ↔ ∃ y ∈ markConverters, y.kind = n.kind := by
  unfold Node.mark?
  cases n.kind <;> simp [Kind.mark?, markConverters]

theorem mark?_of_node (hx : x ∈ nodeConverters) (hk : x.kind = n.kind) : n.mark? = none := by
  by_contra h
  obtain ⟨y, hy, hyk⟩ := isSome_mark?_iff.1 (Option.isSome_iff_ne_none.2 h)
  exact (kind_ne hx).2.2 y hy (hk.trans hyk.symm)

theorem mark?_of_kind (hk : n.kind = .text ∨ n.kind = .inlineCode) : n.mark? = none := by
  rcases hk with hk | hk <;> simp [Node.mark?, hk, Kind.mark?]

/-- The mark that is loaded for a node is the one that it stands for. -/
theorem mark?_of_mark {as : Data} (hy : y ∈ markConverters) (hk : y.kind = n.kind) (has : y.attrs n = .ok as)
    (h : standardGrammar.mark y.type as = .ok m) : n.mark? = some m := by
  have hread : n.mark? = some ⟨y.type, as⟩ ∧ ∀ k, (as.get? k).isSome ↔ k ∈ y.specs.map Prod.fst := by
    rw [Node.mark?, ← hk]
    simp only [markConverters, List.mem_cons, List.not_mem_nil, or_false] at hy
    rcases hy with rfl | rfl | rfl | rfl
    · cases has
      exact ⟨rfl, by simp⟩
    · cases has
      exact ⟨rfl, by simp⟩
    · cases has
      exact ⟨rfl, by simp⟩
    · simp only at has
      split at has
      · simp at has
      · next url hurl =>
        cases has
        refine ⟨by simp [Kind.mark?, hurl], fun k => ?_⟩
        rw [StringMap.isSome_get?_ofList]
        simp
  obtain ⟨t, a, ht, ha, rfl⟩ := Grammar.mark_eq_ok.1 h
  obtain ⟨t', ht', hspecs⟩ := markType?_converter hy
  rw [ht'] at ht
  cases ht
  rw [hspecs] at ha
  have hsame : a = as := AttrSpecs.eq_of_fill ha fun k => by rw [hread.2, StringMap.isSome_lookup]
  rw [hread.1, hsame]

theorem type_of_mark? (hy : y ∈ markConverters) (hk : y.kind = n.kind) (h : n.mark? = some m) : y.type = m.type := by
  rw [Node.mark?, ← hk] at h
  simp only [markConverters, List.mem_cons, List.not_mem_nil, or_false] at hy
  rcases hy with rfl | rfl | rfl | rfl <;> exact congrArg Mark.type (Option.some.inj h)

theorem isLeaf_iff (hx : x ∈ nodeConverters) : x.kind.isLeaf ↔ x.role ≠ .container := by
  have hall : ∀ x ∈ nodeConverters, x.kind.isLeaf ↔ x.role ≠ .container := by
    simp [nodeConverters, Kind.isLeaf]
  exact hall x hx

theorem not_isLeaf (hy : y ∈ markConverters) : ¬ y.kind.isLeaf := by
  have hall : ∀ y ∈ markConverters, ¬ y.kind.isLeaf := by
    simp [markConverters, Kind.isLeaf]
  exact hall y hy

theorem length_marksOverBelow {ks ns : List Node} (h : Node.shapes ks = Node.shapes ns)
    (hks : ∀ k ∈ ks, ∀ n : Node, k.shape = n.shape → k.marksOver.length = n.marksOver.length) :
    (Node.marksOverBelow ks).length = (Node.marksOverBelow ns).length := by
  induction ks generalizing ns with
  | nil =>
    cases ns with
    | nil => rfl
    | cons n s => simp [Node.shapes] at h
  | cons k r ih =>
    cases ns with
    | nil => simp [Node.shapes] at h
    | cons n s =>
      rw [Node.shapes, Node.shapes, List.cons.injEq] at h
      rw [Node.marksOverBelow, Node.marksOverBelow, List.length_append, List.length_append,
        hks k (List.mem_cons_self ..) n h.1, ih h.2 fun k hk => hks k (List.mem_cons_of_mem _ hk)]

/-- How many leaves there are is a matter of the shape. -/
theorem length_marksOver (h : k.shape = n.shape) : k.marksOver.length = n.marksOver.length := by
  induction k using Node.induct generalizing n with
  | step k ih =>
    have hkind := (Node.shape_eq_iff.1 h).1
    have hsome : k.mark?.isSome ↔ n.mark?.isSome := by rw [isSome_mark?_iff, isSome_mark?_iff, hkind]
    cases hm : k.mark? with
    | none =>
      have hn : n.mark? = none := by simpa [hm] using hsome
      rw [Node.marksOver_of_none hm, Node.marksOver_of_none hn, hkind]
    | some m =>
      obtain ⟨m', hm'⟩ := Option.isSome_iff_exists.1 (hsome.1 (by simp [hm]))
      rw [Node.marksOver_of_mark hm, Node.marksOver_of_mark hm', List.length_map, List.length_map]
      exact length_marksOverBelow (Node.shapes_childList h) fun c hc n => ih c hc

end Catalog
end RichDoc
