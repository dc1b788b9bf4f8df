import RichDoc.Proofs.Extension.Composed

/-!
# Reported circles

Of all that makes `Library.compose` fail only a circle that the visit meets makes it report one
(`compose_eq_dependencyCycle`). What it reports are then the names along a circle of extensions that the request
reaches, each needing the next (`circle_of_compose`); extensions are told apart by their places, so names may repeat.
-/

namespace RichDoc

namespace Grammar
variable {known : List String} {nodes : List (String × NodeSpec)} {names : List String}

theorem readContent_ne_dependencyCycle {node : String} {text : Option String} :
    readContent known node text ≠ .error (.dependencyCycle names) := by
  fun_cases readContent known node text <;> simp

theorem nodeTypes_ne_dependencyCycle : nodeTypes known nodes ≠ .error (.dependencyCycle names) := by
  induction nodes with
  | nil => simp [nodeTypes]
  | cons d r ih =>
    rw [nodeTypes, Ne, bind_eq_error]
    rintro (h | ⟨_, -, h⟩)
    · exact readContent_ne_dependencyCycle h
    · rcases bind_eq_error.1 h with h | ⟨_, -, h⟩
      · exact ih h
      · cases h

end Grammar

theorem Composer.finish_ne_dependencyCycle {c : Composer} {names : List String} :
    c.finish ≠ .error (.dependencyCycle names) := by
  rw [finish, Declarations.build, Grammar.build, Ne, bind_eq_error]
  rintro (h | ⟨_, -, h⟩)
  · rcases bind_eq_error.1 h with h | ⟨_, -, h⟩
    · exact Grammar.nodeTypes_ne_dependencyCycle h
    · cases h
  · cases h

namespace Library
open RichDoc.Composition
open Relation (TransGen)
variable {lib : Library} {requested : List Nat} {names : List String}

/-- A circle is reported where the visit meets one and the extensions that it met before go together. -/
theorem compose_eq_dependencyCycle : lib.compose requested = .error (.dependencyCycle names) ↔
    Composer.Join [] (lib.members requested) ∧ ∃ ids, (lib.visit requested).circle = some ids ∧ names = lib.names ids := by
  rw [compose, bind_eq_error, ← (lib.ends_visit requested).eq_dependencyCycle_iff]
  constructor
  · rintro (h | ⟨_, -, h⟩)
    · exact h
    · exact absurd h Composer.finish_ne_dependencyCycle
  · exact .inl

theorem map_some_name {ids : List Nat} (h : ∀ i ∈ ids, i < lib.size) :
    ((ids.filterMap (lib[·]?)).map (·.name)).map some = ids.map fun i => lib[i]?.map (·.name) := by
  have hplaces := congrArg (List.map (Option.map Extension.name)) (map_some_filterMap h)
  simpa only [List.map_map, Function.comp_def, Option.map_some] using hplaces

/-- A visit meets no extension twice, and only what the request reaches; a request that is not refused comes to what it
meets. If a request is refused because of a circle, the names are those of a circle that it reaches; if nothing that it
reaches needs itself, it is not refused so. -/
theorem circle_of_compose (lib : Library) (requested : List Nat) :
    ((lib.visit requested).order.Nodup ∧ (∀ i ∈ (lib.visit requested).order, lib.Reaches requested i) ∧
      ∀ c, lib.compose requested = .ok c → c.extensions = (lib.visit requested).order.filterMap (lib[·]?)) ∧
    (∀ names, lib.compose requested = .error (.dependencyCycle names) →
      ∃ ids, lib.IsCircle ids ∧ (∀ i ∈ ids, lib.Reaches requested i) ∧
        names.map some = ids.map fun i => lib[i]?.map (·.name)) ∧
    ((∀ i, lib.Reaches requested i → ¬ TransGen lib.Needs i i) →
      ∀ names, lib.compose requested ≠ .error (.dependencyCycle names)) := by
  refine ⟨⟨nodup_order lib requested, fun i => reaches_of_mem_order, fun c h => ?_⟩, fun names h => ?_,
    fun hacyclic names h => ?_⟩
  · obtain ⟨-, -, -, -, hc⟩ := compose_eq_ok.1 h
    rw [hc]
    rfl
  · obtain ⟨-, ids, hids, rfl⟩ := compose_eq_dependencyCycle.1 h
    obtain ⟨hcircle, hreaches⟩ := isCircle_visit hids
    exact ⟨ids, hcircle, hreaches, map_some_name fun i hi => (hreaches i hi).1⟩
  · obtain ⟨-, ids, hids, -⟩ := compose_eq_dependencyCycle.1 h
    rw [circle_visit_eq_none_iff.2 hacyclic] at hids
    cases hids

/-- A request that comes upon a circle from outside; two extensions on the circle have one name. -/
def ring : Library := #[
  { name := "start", requires := [1] }, { name := "stone", requires := [2, 3] },
  { name := "link", requires := [3] }, { name := "stone", requires := [1] }]

/-- The circle on the ring is reported, and pages, which need paragraphs twice over, have none. -/
theorem circle_of_ring : ring.compose [0] = .error (.dependencyCycle ["stone", "link", "stone", "stone"]) ∧
    (∃ ids, ring.IsCircle ids ∧ (∀ i ∈ ids, ring.Reaches [0] i) ∧
      ["stone", "link", "stone", "stone"].map some = ids.map fun i => ring[i]?.map (·.name)) ∧
    (∀ i, pages.Reaches [0, 1] i → ¬ TransGen pages.Needs i i) ∧
    ∀ names, pages.compose [0, 1] ≠ .error (.dependencyCycle names) := by
  have hring : ring.compose [0] = .error (.dependencyCycle ["stone", "link", "stone", "stone"]) := by
    have hvisit : ring.visit [0] = ⟨[0, 1, 2, 3], some [1, 2, 3, 1]⟩ := by simp [visit, visitFrom, ring, circle]
    have hjoin : Composer.Join [] (ring.members [0]) := by
      rw [members, hvisit]
      exact ⟨by decide +kernel, by simp, by decide +kernel⟩
    exact compose_eq_dependencyCycle.2 ⟨hjoin, _, congrArg Visited.circle hvisit, rfl⟩
  have hpages : ∀ i, pages.Reaches [0, 1] i → ¬ TransGen pages.Needs i i :=
    circle_visit_eq_none_iff.1 (by simp [visit, visitFrom, pages])
  exact ⟨hring, (circle_of_compose ring [0]).2.1 _ hring, hpages, (circle_of_compose pages [0, 1]).2.2 hpages⟩

end Library
end RichDoc
