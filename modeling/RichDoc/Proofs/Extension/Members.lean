import Mathlib.Data.List.Nodup
import RichDoc.Proofs.Extension.Walks

/-!
# Members of compositions

What is asked of the members of a composition, said of all at once and not of one after the other: each is
`Extension.Whole`, and any two are `Extension.Apart`. Then to look for a type or a kind among the extensions finds the
one that has it, wherever it stands (`find?_eq_some_iff`, `find?_perm`).
-/

namespace RichDoc

namespace Extension

/-- An extension has a type exactly when it has a fragment, and one that stands for the root is a node. -/
structure Whole (e : Extension) : Prop where
  typed : e.type.isSome ↔ e.fragment.isSome
  root : e.kind = some .root → ∃ spec, e.fragment = some (.node spec)

/-- Two extensions have no type and no kind in common. -/
structure Apart (a b : Extension) : Prop where
  type : ∀ t ∈ a.type, t ∉ b.type
  kind : ∀ k ∈ a.kind, k ∉ b.kind

theorem Apart.symm {a b : Extension} (h : a.Apart b) : b.Apart a :=
  ⟨fun t hb ha => h.type t ha hb, fun k hb ha => h.kind k ha hb⟩

theorem node?_eq_some {e : Extension} {d : String × NodeSpec} :
    e.node? = some d ↔ e.type = some d.1 ∧ e.fragment = some (.node d.2) := by
  obtain ⟨t, spec⟩ := d
  unfold node?
  split
  · next ht hf => simp [ht, hf]
  · next h =>
    simp only [reduceCtorEq, false_iff]
    rintro ⟨ht, hf⟩
    exact h t spec ht hf

theorem mark?_eq_some {e : Extension} {d : String × MarkSpec} :
    e.mark? = some d ↔ e.type = some d.1 ∧ e.fragment = some (.mark d.2) := by
  obtain ⟨t, spec⟩ := d
  unfold mark?
  split
  · next ht hf => simp [ht, hf]
  · next h =>
    simp only [reduceCtorEq, false_iff]
    rintro ⟨ht, hf⟩
    exact h t spec ht hf

/-- What has a type brings it into the grammar, as a node or as a mark. -/
theorem Whole.exists_of_type {e : Extension} {t : String} (h : e.Whole) (ht : e.type = some t) :
    (∃ spec, e.node? = some (t, spec)) ∨ ∃ spec, e.mark? = some (t, spec) := by
  obtain ⟨f, hf⟩ := Option.isSome_iff_exists.1 (h.typed.1 (by rw [ht]; rfl))
  cases f with
  | node spec => exact .inl ⟨spec, node?_eq_some.2 ⟨ht, hf⟩⟩
  | mark spec => exact .inr ⟨spec, mark?_eq_some.2 ⟨ht, hf⟩⟩

theorem whole_iff {e : Extension} :
    e.Whole ↔ e.type.isSome = e.fragment.isSome ∧ ¬ (e.kind = some .root ∧ e.node?.isNone) := by
  have hnode (h : e.type.isSome = e.fragment.isSome) :
      ¬ e.node?.isNone ↔ ∃ spec, e.fragment = some (.node spec) := by
    rw [Bool.not_eq_true, Option.isNone_eq_false_iff, Option.isSome_iff_exists]
    constructor
    · rintro ⟨d, hd⟩
      exact ⟨d.2, (node?_eq_some.1 hd).2⟩
    · rintro ⟨spec, hf⟩
      obtain ⟨t, ht⟩ := Option.isSome_iff_exists.1 (h.trans (by rw [hf]; rfl))
      exact ⟨(t, spec), node?_eq_some.2 ⟨ht, hf⟩⟩
  constructor
  · intro h
    have htyped := Bool.eq_iff_iff.2 h.typed
    exact ⟨htyped, fun hroot => (hnode htyped).2 (h.root hroot.1) hroot.2⟩
  · rintro ⟨htyped, hroot⟩
    exact ⟨Bool.eq_iff_iff.1 htyped, fun hk => (hnode htyped).1 fun hnone => hroot ⟨hk, hnone⟩⟩

instance : DecidablePred Whole := fun _ => decidable_of_iff _ whole_iff.symm

instance (a b : Extension) : Decidable (a.Apart b) :=
  decidable_of_iff ((∀ t ∈ a.type, t ∉ b.type) ∧ ∀ k ∈ a.kind, k ∉ b.kind)
    ⟨fun ⟨ht, hk⟩ => ⟨ht, hk⟩, fun h => ⟨h.type, h.kind⟩⟩

/-! ### Tables -/

section Tables
variable {κ : Type} [BEq κ] [LawfulBEq κ] {key : Extension → Option κ} {es es' : List Extension} {k : κ}
  {e : Extension}

theorem find?_eq_none_iff : es.find? (key · == some k) = none ↔ ∀ a ∈ es, k ∉ key a := by
  simp

theorem find?_eq_some_iff (h : es.Pairwise fun a b => ∀ k ∈ key a, k ∉ key b) :
    es.find? (key · == some k) = some e ↔ e ∈ es ∧ key e = some k := by
  constructor
  · intro hf
    exact ⟨List.mem_of_find?_eq_some hf, by simpa using List.find?_some hf⟩
  · rintro ⟨he, hk⟩
    obtain ⟨before, after, rfl⟩ := List.append_of_mem he
    refine List.find?_eq_some_iff_append.2 ⟨by simpa using hk, before, after, rfl, fun a ha => ?_⟩
    have hapart : ∀ k ∈ key a, k ∉ key e := (List.pairwise_append.1 h).2.2 a ha e List.mem_cons_self
    have hne : key a ≠ some k := fun hak => hapart k hak hk
    simpa using hne

theorem find?_perm (h : es.Pairwise fun a b => ∀ k ∈ key a, k ∉ key b) (hp : es.Perm es') :
    es.find? (key · == some k) = es'.find? (key · == some k) := by
  have h' : es'.Pairwise fun a b => ∀ k ∈ key a, k ∉ key b :=
    (hp.pairwise_iff fun hab k hb ha => hab k ha hb).1 h
  refine Option.ext fun e => ?_
  rw [find?_eq_some_iff h, find?_eq_some_iff h', hp.mem_iff]

end Tables
end Extension

namespace Library

/-- The extensions of a request, in order. -/
def members (lib : Library) (requested : List Nat) : List Extension :=
  (lib.visit requested).order.filterMap (lib[·]?)

end Library
end RichDoc
