import Mathlib.Logic.Relation
import RichDoc.Proofs.Tree.Table

/-!
# Places in a tree

The place of a node is its number in document order. `Node.IsChild n i j`: in `n`, the node at place `j` is a child of
the one at place `i`. The table of a tree says the same twice: the parent it gives for a place is the place of the parent
(`parent_slots_eq_some_iff`), and the children it gives are the places of the children, in order (`exists_slot`).

A child's nodes take up one stretch of the table, behind the node and the children before it; whatever stands below a
node stands in one of these stretches (`exists_stretch`).
-/

namespace RichDoc

namespace Node
variable {n c m : Node} {cs before after : List Node} {i j k q : Nat}

/-- The node at place `j` is a child of the one at place `i`: behind it come the subtrees of the children before
(`IsChild.exists_child`). -/
def IsChild (n : Node) (i j : Nat) : Prop :=
  ∃ m before c after, n.nodes[i]? = some m ∧ m.childList = before ++ c :: after ∧ j = i + 1 + sizes before

theorem IsChild.lt (h : n.IsChild i j) : i < j := by
  obtain ⟨m, before, c, after, -, -, rfl⟩ := h
  omega

theorem mem_starts : j ∈ starts k cs ↔ ∃ before c after, cs = before ++ c :: after ∧ j = k + sizes before := by
  induction cs generalizing k with
  | nil => simp [starts]
  | cons d r ih =>
    rw [starts, List.mem_cons, ih]
    constructor
    · rintro (rfl | ⟨before, c, after, rfl, rfl⟩)
      · exact ⟨[], d, r, rfl, by simp [sizes]⟩
      · exact ⟨d :: before, c, after, rfl, by rw [sizes]; omega⟩
    · rintro ⟨before, c, after, hcs, rfl⟩
      rcases List.cons_eq_append_iff.1 hcs with ⟨rfl, -⟩ | ⟨before, rfl, rfl⟩
      · exact .inl (by simp [sizes])
      · exact .inr ⟨before, c, after, rfl, by rw [sizes]; omega⟩

theorem pairwise_starts (k : Nat) (cs : List Node) : (starts k cs).Pairwise (· < ·) := by
  induction cs generalizing k with
  | nil => exact .nil
  | cons c r ih =>
    refine List.pairwise_cons.2 ⟨fun j hj => ?_, ih _⟩
    obtain ⟨before, d, after, -, rfl⟩ := mem_starts.1 hj
    have := c.size_pos
    omega

theorem isChild_iff_mem_starts (h : n.nodes[i]? = some m) : n.IsChild i j ↔ j ∈ starts (i + 1) m.childList := by
  rw [mem_starts]
  constructor
  · rintro ⟨m', before, c, after, hm, hcs, rfl⟩
    obtain rfl := Option.some.inj (h.symm.trans hm)
    exact ⟨before, c, after, hcs, rfl⟩
  · rintro ⟨before, c, after, hcs, rfl⟩
    exact ⟨m, before, c, after, h, hcs, rfl⟩

theorem lt_size_of_nodes (h : n.nodes[i]? = some m) : i < n.size := by
  rw [← length_nodes]
  exact (List.getElem?_eq_some_iff.1 h).1

/-! ### The stretches of the children -/

theorem length_flatMap_nodes (cs : List Node) : (cs.flatMap nodes).length = sizes cs := by
  induction cs with
  | nil => rfl
  | cons n r ih => rw [List.flatMap_cons, List.length_append, ih, length_nodes, sizes]

/-- A place below a list of trees is a place of one of them. -/
theorem exists_stretch (h : j < sizes cs) :
    ∃ before c after k, cs = before ++ c :: after ∧ k < c.size ∧ j = sizes before + k := by
  induction cs generalizing j with
  | nil => simp [sizes] at h
  | cons c r ih =>
    rw [sizes] at h
    by_cases hj : j < c.size
    · exact ⟨[], c, r, j, rfl, hj, by simp [sizes]⟩
    · obtain ⟨before, d, after, k, rfl, hk, hjk⟩ := ih (j := j - c.size) (by omega)
      refine ⟨c :: before, d, after, k, rfl, hk, ?_⟩
      rw [sizes]
      omega

theorem getElem?_nodes_child (h : n.childList = before ++ c :: after) (hk : k < c.size) :
    n.nodes[1 + sizes before + k]? = c.nodes[k]? := by
  have hbefore := length_flatMap_nodes before
  have hc := length_nodes c
  rw [nodes_eq, show 1 + sizes before + k = sizes before + k + 1 by omega, List.getElem?_cons_succ, h,
    List.flatMap_append, List.flatMap_cons, List.getElem?_append_right (by omega), hbefore, Nat.add_sub_cancel_left,
    List.getElem?_append_left (by omega)]

theorem getElem?_slotsAt_child (p : Option Nat) (i : Nat) (h : n.childList = before ++ c :: after) (hk : k < c.size) :
    (slotsAt p i n)[1 + sizes before + k]? = (slotsAt (some i) (i + 1 + sizes before) c)[k]? := by
  have hbefore := length_slotsBelow i (i + 1) before
  have hc := length_slotsAt c (some i) (i + 1 + sizes before)
  rw [slotsAt_eq, show 1 + sizes before + k = sizes before + k + 1 by omega, List.getElem?_cons_succ, h,
    slotsBelow_append, slotsBelow, List.getElem?_append_right (by omega), hbefore, Nat.add_sub_cancel_left,
    List.getElem?_append_left (by omega)]

/-- A place of a tree is the root's or stands in the stretch of a child. -/
theorem exists_child_of_lt (h : j < n.size) (hj : 0 < j) :
    ∃ before c after k, n.childList = before ++ c :: after ∧ k < c.size ∧ j = 1 + sizes before + k := by
  rw [size_eq] at h
  have hlt : j - 1 < sizes n.childList := by omega
  obtain ⟨before, c, after, k, hcs, hk, hjk⟩ := exists_stretch hlt
  exact ⟨before, c, after, k, hcs, hk, by omega⟩

theorem isChild_root (h : n.childList = before ++ c :: after) : n.IsChild 0 (1 + sizes before) :=
  ⟨n, before, c, after, by simp [nodes_eq n], h, by omega⟩

/-- Who is whose child within the tree of a child is so in the whole tree. -/
theorem IsChild.below (h : n.childList = before ++ c :: after) (hc : c.IsChild q k) :
    n.IsChild (1 + sizes before + q) (1 + sizes before + k) := by
  obtain ⟨m, before', d, after', hm, hcs, rfl⟩ := hc
  refine ⟨m, before', d, after', ?_, hcs, by omega⟩
  rw [getElem?_nodes_child h (lt_size_of_nodes hm)]
  exact hm

/-- The nodes of a subtree stand one after the other, from its root on. -/
theorem getElem?_nodes_add (h : n.nodes[i]? = some m) (hk : k < m.size) : n.nodes[i + k]? = m.nodes[k]? := by
  induction n using induct generalizing i with
  | step n ih =>
    rcases Nat.eq_zero_or_pos i with rfl | hi
    · obtain rfl : n = m := by simpa [nodes_eq n] using h
      rw [Nat.zero_add]
    · obtain ⟨before, c, after, q, hcs, hq, rfl⟩ := exists_child_of_lt (lt_size_of_nodes h) hi
      rw [getElem?_nodes_child hcs hq] at h
      have hc := ih c (by simp [hcs]) h
      have hlt : q + k < c.size := by
        rw [← length_nodes] at hk ⊢
        rw [List.getElem?_eq_getElem hk] at hc
        exact (List.getElem?_eq_some_iff.1 hc).1
      rw [show 1 + sizes before + q + k = 1 + sizes before + (q + k) by omega, getElem?_nodes_child hcs hlt, hc]

/-- The places of a node's children are where the children stand. -/
theorem IsChild.exists_child (h : n.IsChild i j) : ∃ m, n.nodes[i]? = some m ∧ ∃ c ∈ m.childList, n.nodes[j]? = some c := by
  obtain ⟨m, before, c, after, hm, hcs, rfl⟩ := h
  have hlt : 1 + sizes before < m.size := by
    have := c.size_pos
    rw [size_eq, hcs, sizes_append, sizes]
    omega
  have hroot := getElem?_nodes_child (k := 0) hcs c.size_pos
  rw [nodes_eq c] at hroot
  refine ⟨m, hm, c, by simp [hcs], ?_⟩
  rw [show i + 1 + sizes before = i + (1 + sizes before) by omega, getElem?_nodes_add hm hlt]
  exact hroot

/-! ### The slots of a table -/

/-- The slot of a node holds the node without its children, and where these start. -/
theorem exists_slot_of_nodes (p : Option Nat) (i : Nat) (h : n.nodes[q]? = some m) : ∃ p', (slotsAt p i n)[q]? =
    some ⟨{ m with children := none }, p', starts (i + q + 1) m.childList, m.children.isSome, false⟩ := by
  induction n using induct generalizing p i q with
  | step n ih =>
    rcases Nat.eq_zero_or_pos q with rfl | hq
    · obtain rfl : n = m := by simpa [nodes_eq n] using h
      exact ⟨p, by rw [slotsAt_eq, List.getElem?_cons_zero]⟩
    · obtain ⟨before, c, after, k, hcs, hk, rfl⟩ := exists_child_of_lt (lt_size_of_nodes h) hq
      rw [getElem?_nodes_child hcs hk] at h
      rw [getElem?_slotsAt_child p i hcs hk,
        show i + (1 + sizes before + k) + 1 = i + 1 + sizes before + k + 1 by omega]
      exact ih c (by simp [hcs]) (some i) _ h

theorem exists_slot (h : n.nodes[q]? = some m) : ∃ p, n.slots[q]? =
    some ⟨{ m with children := none }, p, starts (q + 1) m.childList, m.children.isSome, false⟩ := by
  obtain ⟨p, hp⟩ := exists_slot_of_nodes none 0 h
  rw [Nat.zero_add] at hp
  exact ⟨p, by simpa [slots_eq] using hp⟩

/-- The parent of each place but the first is the place of the parent. -/
theorem exists_parent_slotsAt {p : Option Nat} {s : Slot} (h : (slotsAt p i n)[j]? = some s) (hj : 0 < j) :
    ∃ q, s.parent = some (i + q) ∧ n.IsChild q j := by
  induction n using induct generalizing p i j with
  | step n ih =>
    have hlt : j < n.size := by
      rw [← length_slotsAt n p i]
      exact (List.getElem?_eq_some_iff.1 h).1
    obtain ⟨before, c, after, k, hcs, hk, rfl⟩ := exists_child_of_lt hlt hj
    rw [getElem?_slotsAt_child p i hcs hk] at h
    rcases Nat.eq_zero_or_pos k with rfl | hpos
    · -- the first slot of a child's stretch
      rw [slotsAt_eq] at h
      obtain rfl := Option.some.inj h
      exact ⟨0, rfl, isChild_root hcs⟩
    · obtain ⟨q, hq, hchild⟩ := ih c (by simp [hcs]) h hpos
      exact ⟨1 + sizes before + q, by rw [hq]; congr 1; omega, hchild.below hcs⟩

theorem IsChild.exists_slot (p : Option Nat) (i : Nat) (h : n.IsChild q j) :
    ∃ s, (slotsAt p i n)[j]? = some s ∧ s.parent = some (i + q) := by
  induction n using induct generalizing p i q j with
  | step n ih =>
    obtain ⟨m, before, c, after, hm, hcs, rfl⟩ := h
    rcases Nat.eq_zero_or_pos q with rfl | hq
    · -- a child of the root itself
      obtain rfl : n = m := by simpa [nodes_eq n] using hm
      have hslot := getElem?_slotsAt_child p i hcs c.size_pos
      rw [slotsAt_eq (some i), List.getElem?_cons_zero] at hslot
      rw [show 0 + 1 + sizes before = 1 + sizes before + 0 by omega]
      exact ⟨_, hslot, rfl⟩
    · obtain ⟨front, d, rest, k, hds, hk, rfl⟩ := exists_child_of_lt (lt_size_of_nodes hm) hq
      rw [getElem?_nodes_child hds hk] at hm
      have hchild : d.IsChild k (k + 1 + sizes before) := ⟨m, before, c, after, hm, hcs, rfl⟩
      obtain ⟨s, hs, hparent⟩ := ih d (by simp [hds]) (some i) (i + 1 + sizes front) hchild
      have hlt : k + 1 + sizes before < d.size := by
        rw [← length_slotsAt d (some i) (i + 1 + sizes front)]
        exact (List.getElem?_eq_some_iff.1 hs).1
      refine ⟨s, ?_, by rw [hparent]; congr 1; omega⟩
      rw [show 1 + sizes front + k + 1 + sizes before = 1 + sizes front + (k + 1 + sizes before) by omega,
        getElem?_slotsAt_child p i hds hlt]
      exact hs

theorem parent_slots_eq_some_iff : n.slots[j]?.bind (·.parent) = some i ↔ n.IsChild i j := by
  constructor
  · intro h
    obtain ⟨s, hs, hparent⟩ := Option.bind_eq_some_iff.1 h
    have hs : (slotsAt none 0 n)[j]? = some s := by simpa [slots_eq] using hs
    rcases Nat.eq_zero_or_pos j with rfl | hj
    · -- the root has no parent
      rw [slotsAt_eq] at hs
      obtain rfl := Option.some.inj hs
      cases hparent
    · obtain ⟨q, hq, hchild⟩ := exists_parent_slotsAt hs hj
      obtain rfl : i = q := by simpa [hparent] using hq
      exact hchild
  · intro h
    obtain ⟨s, hs, hparent⟩ := h.exists_slot none 0
    rw [show n.slots[j]? = some s by simpa [slots_eq] using hs]
    simpa using hparent

end Node
end RichDoc
