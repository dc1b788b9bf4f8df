import RichDoc.Html.Pairing
import RichDoc.Proofs.Tree.Table

/-!
# What joining a pair does to a table

`merge` is a scan that collects text, a scan that removes, an edit of the opening tag and a walk up its
parents. Each is described by what it does to the slot at one place; `joined` is what they make of it together, and
`getElem?_merge_eq` says so. The walk ends at the places `above` the opening tag, which the steps before it leave
where they are. Parents and numbers of children never change, a value changes at the opening tag only
(`MergedSlot`), and no slot after the closing tag changes at all (`getElem?_merge_after`).
-/

namespace RichDoc

theorem join_filterMap {α : Type} (f : α → Option String) (l : List α) :
    String.join (l.filterMap f) = String.join (l.map fun x => (f x).getD "") := by
  induction l with
  | nil => rfl
  | cons x r ih => cases h : f x <;> simp [h, ih]

namespace Slots
variable {t : Slots}

/-- Removing the nodes of a list that satisfy `P`. -/
theorem getElem?_foldl_remove (P : Nat → Bool) (l : List Nat) (t : Slots) (k : Nat) :
    (l.foldl (fun u j => if P j then u.remove j else u) t)[k]? =
      if k ∈ l ∧ P k then t[k]?.map fun s => { s with removed := true } else t[k]? := by
  induction l generalizing t with
  | nil => simp
  | cons j r ih =>
    rw [List.foldl_cons, ih]
    by_cases hj : P j = true
    · by_cases hjk : j = k
      · subst hjk
        cases h : t[j]? <;> simp [hj, getElem?_remove, h]
      · simp [hj, getElem?_remove, hjk, Ne.symm hjk]
    · by_cases hjk : j = k
      · subst hjk; simp [hj]
      · simp [hj, Ne.symm hjk]

end Slots

namespace Html
open Slots (getElem?_edit)
variable {t u : Slots} {opening closing range : Span} {i j k : Nat} {s : Slot}

/-! ### The steps -/

/-- The span stands between the end of the opening tag and that of the closing one. -/
def StandsBetween (opening closing : Span) (p : Span) : Bool :=
  opening.stop ≤ p.start && p.stop ≤ closing.stop

theorem getElem?_removeBetween (t : Slots) (opening closing : Span) (i j k : Nat) :
    (removeBetween t opening closing i j)[k]? =
      if (i < k ∧ k ≤ j) ∧ (t.span? k).any (StandsBetween opening closing) then
        t[k]?.map fun s => { s with removed := true }
      else t[k]? := by
  have hbody : removeBetween t opening closing i j = (List.range' (i + 1) (j - i)).foldl
      (fun u k => if (t.span? k).any (StandsBetween opening closing) then u.remove k else u) t := by
    unfold removeBetween
    congr 1
    funext u k
    cases t.span? k <;> rfl
  have hmem : k ∈ List.range' (i + 1) (j - i) ↔ i < k ∧ k ≤ j := by rw [List.mem_range'_1]; omega
  rw [hbody, Slots.getElem?_foldl_remove]
  simp only [hmem]

/-- The places that a place stands under, innermost first. -/
def above (t : Slots) (i : Nat) : List Nat :=
  match t[i]?.bind (·.parent) with
  | none => []
  | some p => if p < i then p :: above t p else []
termination_by i

theorem lt_of_mem_above (h : k ∈ above t i) : k < i := by
  induction i using Nat.strongRecOn with
  | ind i ih =>
    rw [above] at h
    split at h
    · simp at h
    · next p _ =>
      split at h
      · next hp =>
        rcases List.mem_cons.1 h with rfl | h
        · exact hp
        · exact Nat.lt_trans (ih p hp h) hp
      · simp at h

theorem above_congr (h : ∀ k : Nat, t[k]?.bind (·.parent) = u[k]?.bind (·.parent)) (i : Nat) : above t i = above u i := by
  induction i using Nat.strongRecOn with
  | ind i ih =>
    rw [above, above, h i]
    cases u[i]?.bind (·.parent) with
    | none => rfl
    | some p =>
      by_cases hp : p < i
      · simp [hp, ih p hp]
      · simp [hp]

theorem above_edit (t : Slots) (p : Nat) (f : Node → Node) (i : Nat) : above (t.edit p f) i = above t i := by
  refine above_congr (fun k => ?_) i
  rw [getElem?_edit]
  cases t[k]? with
  | none => split <;> rfl
  | some s => split <;> rfl

theorem above_removeBetween (t : Slots) (opening closing : Span) (i j l : Nat) :
    above (removeBetween t opening closing i j) l = above t l := by
  refine above_congr (fun k => ?_) l
  rw [getElem?_removeBetween]
  cases t[k]? with
  | none => split <;> rfl
  | some s => split <;> rfl

/-- Widening changes the nodes that a place stands under, and their spans only. -/
theorem getElem?_widen_eq (t : Slots) (range : Span) (i k : Nat) :
    (widen t range i)[k]? = if k ∈ above t i then
      t[k]?.map fun s => { s with node := { s.node with children := none, span := s.node.span.map (·.cover range) } }
    else t[k]? := by
  induction i using Nat.strongRecOn generalizing t with
  | ind i ih =>
    rw [widen, above]
    cases t[i]?.bind (·.parent) with
    | none => simp
    | some p =>
      by_cases hp : p < i
      · simp only [hp, if_true, List.mem_cons]
        rw [ih p hp, above_edit, getElem?_edit]
        by_cases hk : k = p
        · subst hk
          have hself : k ∉ above t k := fun h => Nat.lt_irrefl k (lt_of_mem_above h)
          simp [hself]
        · simp [hk, Ne.symm hk]
      · simp [hp]

/-! ### The whole step -/

/-- What joining the tags at `i` and `j` makes of the slot at place `k`. -/
def joined (t : Slots) (opening closing : Span) (i j k : Nat) (s : Slot) : Slot :=
  { s with
    removed := if (i < k ∧ k ≤ j) ∧ s.node.span.any (StandsBetween opening closing) then true else s.removed
    node :=
      if k = i then
        { s.node with
          kind := .html, children := none, value := some (literalText t (Span.make opening.start closing.stop) i j),
          span := some (Span.make opening.start closing.stop) }
      else if k ∈ above t i then
        { s.node with
          children := none, span := s.node.span.map (·.cover (Span.make opening.start closing.stop)) }
      else s.node }

theorem getElem?_merge_eq (hi : t.span? i = some opening) (hj : t.span? j = some closing) (k : Nat) :
    (merge t i j)[k]? = t[k]?.map (joined t opening closing i j k) := by
  simp only [merge, hi, hj]
  generalize hrange : Span.make opening.start closing.stop = range
  -- the walk starts on a table that has changed already, but not in its parents
  rw [getElem?_widen_eq, above_edit, above_removeBetween, getElem?_edit, getElem?_removeBetween]
  cases hta : t[k]? with
  | none => simp
  | some a =>
    have hspan : t.span? k = a.node.span := by simp [Slots.span?, hta]
    rw [hspan]
    simp only [joined, hrange, Option.map_some]
    by_cases hki : k = i
    · subst hki
      have hself : k ∉ above t k := fun hk => Nat.lt_irrefl k (lt_of_mem_above hk)
      simp [hself]
    · simp only [hki, Ne.symm hki, if_false]
      by_cases hb : (i < k ∧ k ≤ j) ∧ a.node.span.any (StandsBetween opening closing) = true <;>
        by_cases hk : k ∈ above t i <;> simp only [hb, hk, and_self, if_true, if_false, Option.map_some]

/-- What becomes of the slot `s` at place `k` when the tags at `i` and `j` are joined, but for its kind and span. -/
structure MergedSlot (t : Slots) (i j k : Nat) (opening closing : Span) (s s' : Slot) : Prop where
  parent : s'.parent = s.parent
  children : s'.children = s.children
  isParent : s'.isParent = s.isParent
  removed : s'.removed =
    (s.removed || (decide (i < k ∧ k ≤ j) && s.node.span.any (StandsBetween opening closing)))
  value : s'.node.value =
    if k = i then some (literalText t (Span.make opening.start closing.stop) i j) else s.node.value
  bare : s.node.children = none → s'.node.children = none

theorem mergedSlot_joined (t : Slots) (opening closing : Span) (i j k : Nat) (s : Slot) :
    MergedSlot t i j k opening closing s (joined t opening closing i j k s) where
  parent := rfl
  children := rfl
  isParent := rfl
  removed := by
    by_cases hk : i < k ∧ k ≤ j
    · cases hb : s.node.span.any (StandsBetween opening closing) <;> simp [joined, hk, hb]
    · simp [joined, hk]
  value := by
    by_cases hki : k = i
    · simp [joined, hki]
    · simp only [joined, hki, if_false]
      split <;> rfl
  bare h := by
    simp only [joined]
    split
    · rfl
    · split
      · rfl
      · exact h

theorem getElem?_merge (hi : t.span? i = some opening) (hj : t.span? j = some closing)
    (hs : t[k]? = some s) :
    ∃ s', (merge t i j)[k]? = some s' ∧ MergedSlot t i j k opening closing s s' :=
  ⟨_, by rw [getElem?_merge_eq hi hj, hs, Option.map_some], mergedSlot_joined ..⟩

/-- After the closing tag nothing changes. -/
theorem getElem?_merge_after (hi : t.span? i = some opening) (hj : t.span? j = some closing)
    (hij : i ≤ j) (hjk : j < k) : (merge t i j)[k]? = t[k]? := by
  have hbetween : ¬(i < k ∧ k ≤ j) := by omega
  have hself : k ≠ i := by omega
  have habove : k ∉ above t i := fun h => by
    have := lt_of_mem_above h
    omega
  rw [getElem?_merge_eq hi hj]
  cases t[k]? with
  | none => rfl
  | some s => simp [joined, hbetween, hself, habove]

end Html
end RichDoc
