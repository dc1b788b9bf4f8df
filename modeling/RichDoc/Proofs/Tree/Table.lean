import RichDoc.Proofs.Tree.Filling

/-!
# What a table holds

A table that was made from a tree `n` and edited since still has the shape of `n` (`Slots.Shaped`): each
slot has the parent and the children it had. `Slots.assemble` reads the tree off such a table by recursion
on `n`. `Slots.build` follows the places of the children instead and moves the nodes out of the table; what it
moves out of a stretch leaves the rest of the table as it was, so it comes to the same (`build_eq`,
`toNode_eq_assemble`). Unedited, the tree is `n` again (`toNode_slots`). Its text is the text of the slots that
neither are removed nor stand under one that is (`textContent_toNode`).
-/

namespace RichDoc

namespace Slots
open Node (slotsAt slotsBelow sizes starts)
variable {t u : Slots} {i : Nat}

/-! ### Agreeing with a stretch of a table -/

/-- From place `i` on each slot of `t` is related to the one of `l`. -/
def Agrees (R : Slot → Slot → Prop) (t : Slots) (i : Nat) (l : List Slot) : Prop :=
  ∀ k s, l[k]? = some s → ∃ u, t[i + k]? = some u ∧ R u s

namespace Agrees
variable {R R' : Slot → Slot → Prop} {s : Slot} {l m : List Slot}

theorem mono (h : Agrees R t i l) (hR : ∀ u, ∀ s ∈ l, R u s → R' u s) : Agrees R' t i l :=
  fun k s hs => let ⟨u, hu, hus⟩ := h k s hs; ⟨u, hu, hR u s (List.mem_of_getElem? hs) hus⟩

theorem head (h : Agrees R t i (s :: l)) : ∃ u, t[i]? = some u ∧ R u s := h 0 s rfl

theorem tail (h : Agrees R t i (s :: l)) : Agrees R t (i + 1) l := fun k s hs => by
  have := h (k + 1) s (by simpa using hs)
  rwa [show i + (k + 1) = i + 1 + k by omega] at this

theorem left (h : Agrees R t i (l ++ m)) : Agrees R t i l := fun k s hs =>
  h k s (by rw [List.getElem?_append_left (List.getElem?_eq_some_iff.1 hs).1, hs])

theorem right (h : Agrees R t i (l ++ m)) : Agrees R t (i + l.length) m := fun k s hs => by
  have := h (l.length + k) s (by rw [List.getElem?_append_right (by omega)]; simpa using hs)
  rwa [← Nat.add_assoc] at this

theorem congr (h : Agrees R t i l) (hu : ∀ k, i ≤ k → k < i + l.length → u[k]? = t[k]?) : Agrees R u i l := by
  intro k s hs
  have hk := (List.getElem?_eq_some_iff.1 hs).1
  rw [hu (i + k) (by omega) (by omega)]
  exact h k s hs

/-- Behind the stretch of a child those of its later siblings begin. -/
theorem later {c : Node} {p j : Nat} {cs : List Node} (h : Agrees R t j (slotsBelow p j (c :: cs))) :
    Agrees R t (j + c.size) (slotsBelow p (j + c.size) cs) := by
  have hright := h.right
  rwa [Node.length_slotsAt] at hright

end Agrees

/-- What holds at every place of each child's stretch holds at every place of all of them. -/
theorem forall_slotsBelow {R : Slot → Slot → Prop} {Q : Nat → Prop} {p j : Nat} (cs : List Node)
    (h : Agrees R t j (slotsBelow p j cs))
    (hc : ∀ c ∈ cs, ∀ k, Agrees R t k (slotsAt (some p) k c) → j ≤ k → ∀ m, k ≤ m → m < k + c.size → Q m) :
    ∀ m, j ≤ m → m < j + sizes cs → Q m := by
  induction cs generalizing j with
  | nil => intro m hm hm'; simp [sizes] at hm'; omega
  | cons n r ih =>
    intro m hm hm'
    have hr := h.later
    rw [sizes] at hm'
    by_cases hlt : m < j + n.size
    · exact hc n (by simp) j h.left (Nat.le_refl j) m hm hlt
    · exact ih hr (fun c hmem k hk hjk => hc c (by simp [hmem]) k hk (by omega)) m (by omega) (by omega)

/-- What holds at a node's place and at all places below it holds on its whole stretch. -/
theorem forall_slotsAt {Q : Nat → Prop} {n : Node} (hi : Q i)
    (h : ∀ m, i + 1 ≤ m → m < i + 1 + sizes n.childList → Q m) : ∀ m, i ≤ m → m < i + n.size → Q m := by
  intro m hm hm'
  rw [Node.size_eq] at hm'
  rcases Nat.eq_or_lt_of_le hm with rfl | hm
  · exact hi
  · exact h m hm (by omega)

theorem agrees_slots (n : Node) : Agrees (· = ·) n.slots 0 (slotsAt none 0 n) :=
  fun k s hs => ⟨s, by simpa [Node.slots_eq] using hs, rfl⟩

theorem bare_of_children {m : Node} (h : m.children = none) : { m with children := none } = m := by
  obtain ⟨k, v, cs, p, d⟩ := m
  obtain rfl : cs = none := h
  rfl

/-- Same parent and places of children, and the children are not in the node itself. -/
structure SameShape (u s : Slot) : Prop where
  parent : u.parent = s.parent
  children : u.children = s.children
  isParent : u.isParent = s.isParent
  bare : u.node.children = none

/-- From place `i` on the table has the shape of `l`. -/
abbrev Shaped : Slots → Nat → List Slot → Prop := Agrees SameShape

/-! ### Changing a slot -/

theorem getElem?_remove (t : Slots) (i k : Nat) :
    (t.remove i)[k]? = if i = k then t[k]?.map fun s => { s with removed := true } else t[k]? :=
  Array.getElem?_modify

theorem getElem?_edit (t : Slots) (i : Nat) (f : Node → Node) (k : Nat) :
    (t.edit i f)[k]? =
      if i = k then t[k]?.map fun s => { s with node := { f s.node with children := none } } else t[k]? :=
  Array.getElem?_modify

/-! ### Removed places -/

theorem isRemoved_eq {s : Slot} (h : t[i]? = some s) :
    t.isRemoved i = (s.removed || s.parent.any fun p => p < i && t.isRemoved p) := by
  rw [isRemoved]
  simp only [h]
  cases s.parent with
  | none => rfl
  | some p => by_cases hp : p < i <;> simp [hp]

theorem isRemoved_of_none (h : t[i]? = none) : t.isRemoved i = false := by
  rw [isRemoved]
  simp only [h]

/-- Whether a place is removed hangs on the places up to it. -/
theorem isRemoved_congr
    (h : ∀ k, k ≤ i → t[k]?.map (fun s => (s.removed, s.parent)) = u[k]?.map fun s => (s.removed, s.parent)) :
    t.isRemoved i = u.isRemoved i := by
  induction i using Nat.strongRecOn with
  | ind i ih =>
    have hi := h i (Nat.le_refl i)
    cases ht : t[i]? with
    | none =>
      rw [ht, Option.map_none] at hi
      rw [isRemoved_of_none ht, isRemoved_of_none (Option.map_eq_none_iff.1 hi.symm)]
    | some s =>
      rw [ht, Option.map_some] at hi
      obtain ⟨s', hs', heq⟩ := Option.map_eq_some_iff.1 hi.symm
      obtain ⟨hremoved, hparent⟩ := Prod.mk.inj heq
      rw [isRemoved_eq ht, isRemoved_eq hs', ← hremoved, ← hparent]
      congr 1
      cases hp : s'.parent with
      | none => rfl
      | some p =>
        by_cases hlt : p < i
        · simp [hlt, ih p hlt fun k hk => h k (by omega)]
        · simp [hlt]

theorem isRemoved_slots (n : Node) (i : Nat) : n.slots.isRemoved i = false := by
  induction i using Nat.strongRecOn with
  | ind i ih =>
    cases hs : n.slots[i]? with
    | none => exact isRemoved_of_none hs
    | some s =>
      rw [isRemoved_eq hs, Node.removed_slots hs]
      cases s.parent with
      | none => rfl
      | some p => by_cases hp : p < i <;> simp [hp, ih p]

/-! ### The tree of a table -/

mutual
/-- The tree at place `i`, in the shape of a given one; nothing if it is removed. -/
def assemble (t : Slots) (i : Nat) : Node → Option Node
  | ⟨_, _, cs, _, _⟩ =>
    match t[i]? with
    | none => none
    | some s => if s.removed then none else some { s.node with children := assembleBelow? t (i + 1) cs }

/-- The trees from place `i` on below a node whose children may be absent. -/
def assembleBelow? (t : Slots) (i : Nat) : Option (List Node) → Option (List Node)
  | none => none
  | some cs => some (assembleBelow t i cs)

/-- The trees from place `i` on, without the removed ones. -/
def assembleBelow (t : Slots) (i : Nat) : List Node → List Node
  | [] => []
  | n :: r => (assemble t i n).toList ++ assembleBelow t (i + n.size) r
end

theorem assemble_eq {s : Slot} (h : t[i]? = some s) (n : Node) :
    assemble t i n =
      if s.removed then none
      else some { s.node with children := n.children.map (assembleBelow t (i + 1)) } := by
  obtain ⟨k, v, _ | cs, p, d⟩ := n <;> simp [assemble, h, assembleBelow?]

theorem assemble_eq_some {n m : Node} : assemble t i n = some m ↔
    ∃ s, t[i]? = some s ∧ s.removed = false ∧
      m = { s.node with children := n.children.map (assembleBelow t (i + 1)) } := by
  cases hs : t[i]? with
  | none =>
    obtain ⟨k, v, cs, p, d⟩ := n
    simp [assemble, hs]
  | some s =>
    rw [assemble_eq hs]
    split
    · next hr => simp [hr]
    · next hr => simp [hr, eq_comm (b := m)]

theorem childList_of_assemble {n m : Node} (h : assemble t i n = some m) :
    m.childList = assembleBelow t (i + 1) n.childList := by
  obtain ⟨s, -, -, rfl⟩ := assemble_eq_some.1 h
  cases hcs : n.children <;> simp [Node.childList, hcs, assembleBelow]

/-- Below a node stand trees of its children. -/
theorem exists_of_mem_assembleBelow {p j : Nat} {m : Node} {cs : List Node} (ht : t.Shaped j (slotsBelow p j cs))
    (hm : m ∈ assembleBelow t j cs) : ∃ c ∈ cs, ∃ k, t.Shaped k (slotsAt (some p) k c) ∧ assemble t k c = some m := by
  induction cs generalizing j with
  | nil => simp [assembleBelow] at hm
  | cons c r ih =>
    have hr := ht.later
    rcases List.mem_append.1 hm with hm | hm
    · exact ⟨c, by simp, j, ht.left, by simpa using hm⟩
    · obtain ⟨d, hd, hstands⟩ := ih hr hm
      exact ⟨d, by simp [hd], hstands⟩

/-! ### Following the places of the children -/

theorem assembleBelow_congr (cs : List Node)
    (ih : ∀ c ∈ cs, ∀ k, (∀ l, k ≤ l → l < k + c.size → t[l]? = u[l]?) → assemble t k c = assemble u k c)
    (h : ∀ l, i ≤ l → l < i + sizes cs → t[l]? = u[l]?) : assembleBelow t i cs = assembleBelow u i cs := by
  induction cs generalizing i with
  | nil => rfl
  | cons c r ihr =>
    rw [sizes] at h
    rw [assembleBelow, assembleBelow, ih c (by simp) i fun l hl hl' => h l hl (by omega),
      ihr (fun d hd => ih d (by simp [hd])) fun l hl hl' => h l (by omega) (by omega)]

/-- The tree at a place hangs on its stretch only. -/
theorem assemble_congr (n : Node) (h : ∀ l, i ≤ l → l < i + n.size → t[l]? = u[l]?) :
    assemble t i n = assemble u i n := by
  induction n using Node.induct generalizing i with
  | step n ih =>
    rw [Node.size_eq] at h
    have hbelow : assembleBelow t (i + 1) n.childList = assembleBelow u (i + 1) n.childList :=
      assembleBelow_congr n.childList (fun c hc k hk => ih c hc hk) fun l hl hl' => h l (by omega) (by omega)
    have hroot := h i (Nat.le_refl i) (by omega)
    obtain ⟨k, v, _ | cs, p, d⟩ := n
    · simp only [assemble, hroot, assembleBelow?]
    · simp only [assemble, hroot, assembleBelow?, show assembleBelow t (i + 1) cs = assembleBelow u (i + 1) cs from hbelow]

/-- What is moved out of a table from place `i` on up to place `j` leaves the other places as they were. -/
def Leaves (t u : Slots) (i j : Nat) : Prop := ∀ k, k < i ∨ j ≤ k → u[k]? = t[k]?

/-- Building takes the places of the children out of the slot, and then the node. -/
theorem build_of_slot {s : Slot} {cs : List Node} (hs : t[i]? = some s)
    (hcs : ((t.detach i).buildAll s.children).1 = cs) (hu : ((t.detach i).buildAll s.children).2.1 = u) :
    (t.build i).1 = (u[i]?.map fun s => if s.isParent then { s.node with children := some cs } else s.node).getD default ∧
      (t.build i).2.1 = u.modify i fun s => { s with node := .void s.node.kind } := by
  subst hcs hu
  rw [build]
  split
  · next h =>
    rw [hs] at h
    cases h
  · next s' h =>
    obtain rfl := Option.some.inj (hs.symm.trans h)
    exact ⟨rfl, rfl⟩

theorem buildAll_eq {p j : Nat} (cs : List Node) (h : t.Shaped j (slotsBelow p j cs))
    (ih : ∀ c ∈ cs, ∀ (t : Slots) (q : Option Nat) (k : Nat) (s : Slot), t.Shaped k (slotsAt q k c) → t[k]? = some s →
      (t.build k).1 = { s.node with children := c.children.map (assembleBelow t (k + 1)) } ∧
        Leaves t (t.build k).2.1 k (k + c.size)) :
    (t.buildAll (starts j cs)).1 = assembleBelow t j cs ∧ Leaves t (t.buildAll (starts j cs)).2.1 j (j + sizes cs) := by
  induction cs generalizing t j with
  | nil =>
    rw [starts, buildAll]
    exact ⟨rfl, fun _ _ => rfl⟩
  | cons c r ihr =>
    obtain ⟨s, hs, -⟩ := (Node.slotsAt_eq (some p) j c ▸ h.left).head
    have hlater := h.later
    have ihr' {u : Slots} (hu : u.Shaped (j + c.size) (slotsBelow p (j + c.size) r)) :=
      ihr hu fun d hd => ih d (by simp [hd])
    rw [starts, buildAll, assembleBelow, assemble_eq hs, hs, sizes]
    cases hr : s.removed with
    | true =>
      obtain ⟨hbuild, hleaves⟩ := ihr' hlater
      simp only [Option.map_some, Option.getD_some, hr, if_true]
      refine ⟨hbuild, fun k hk => hleaves k (by omega)⟩
    | false =>
      obtain ⟨hc, hleaves⟩ := ih c (by simp) t (some p) j s h.left hs
      have hrest : ∀ k, j + c.size ≤ k → k < j + c.size + sizes r → (t.build j).2.1[k]? = t[k]? :=
        fun k hk _ => hleaves k (.inr hk)
      obtain ⟨hbuild, hleaves'⟩ := ihr' (hlater.congr (by simpa using hrest))
      have hsame : assembleBelow (t.build j).2.1 (j + c.size) r = assembleBelow t (j + c.size) r :=
        assembleBelow_congr r (fun d _ k => assemble_congr d) hrest
      simp only [Option.map_some, Option.getD_some, hr, Bool.false_eq_true, if_false]
      refine ⟨by rw [hbuild, hsame, hc]; rfl, fun k hk => (hleaves' k (by omega)).trans (hleaves k (by omega))⟩

/-- The tree at a place is read off the table, and moved out of it. -/
theorem build_eq {s : Slot} (n : Node) (p : Option Nat) (i : Nat) (h : t.Shaped i (slotsAt p i n)) (hs : t[i]? = some s) :
    (t.build i).1 = { s.node with children := n.children.map (assembleBelow t (i + 1)) } ∧
      Leaves t (t.build i).2.1 i (i + n.size) := by
  induction n using Node.induct generalizing t p i s with
  | step n ih =>
    rw [Node.slotsAt_eq] at h
    obtain ⟨s', hs', hshape⟩ := h.head
    obtain rfl := Option.some.inj (hs.symm.trans hs')
    have hdetach (k : Nat) (hk : i ≠ k) : (t.detach i)[k]? = t[k]? := by rw [detach, Array.getElem?_modify, if_neg hk]
    have hbelow : (t.detach i).Shaped (i + 1) (slotsBelow i (i + 1) n.childList) :=
      h.tail.congr fun k hk _ => hdetach k (by omega)
    have hsame : assembleBelow (t.detach i) (i + 1) n.childList = assembleBelow t (i + 1) n.childList :=
      assembleBelow_congr n.childList (fun c _ k => assemble_congr c) fun k hk _ => hdetach k (by omega)
    obtain ⟨hcs, hleaves⟩ := buildAll_eq n.childList hbelow fun c hc t q k s => ih c hc q k
    have hplaces : s.children = starts (i + 1) n.childList := hshape.children
    rw [← hplaces] at hcs hleaves
    obtain ⟨hnode, hrest⟩ := build_of_slot hs (hcs.trans hsame) rfl
    have hself : ((t.detach i).buildAll s.children).2.1[i]? = some { s with children := [] } := by
      rw [hleaves i (.inl (Nat.lt_succ_self i)), detach, Array.getElem?_modify, if_pos rfl, hs]
      rfl
    constructor
    · rw [hnode, hself, Option.map_some, Option.getD_some, show s.isParent = n.children.isSome from hshape.isParent]
      obtain ⟨kind, value, _ | cs, span, data⟩ := n
      · exact (bare_of_children hshape.bare).symm
      · rfl
    · intro k hk
      rw [Node.size_eq] at hk
      rw [hrest, Array.getElem?_modify, if_neg (by omega), hleaves k (by omega), hdetach k (by omega)]

/-- Putting a table together gives the node of the first slot, removed or not, with the trees below it. -/
theorem toNode_eq {n : Node} {s : Slot} (h : t.Shaped 0 (slotsAt none 0 n)) (hs : t[0]? = some s) :
    t.toNode = { s.node with children := n.children.map (assembleBelow t 1) } := by
  have hrestore (k : Nat) : (t.restore 0)[k]? = if 0 = k then t[k]?.map fun s => { s with removed := false } else t[k]? :=
    Array.getElem?_modify
  have hshaped : (t.restore 0).Shaped 0 (slotsAt none 0 n) := by
    intro k r hr
    obtain ⟨a, ha, hshape⟩ := h k r hr
    rw [hrestore, ha]
    split
    · exact ⟨_, rfl, hshape.parent, hshape.children, hshape.isParent, hshape.bare⟩
    · exact ⟨a, rfl, hshape⟩
  have hself : (t.restore 0)[0]? = some { s with removed := false } := by
    rw [hrestore, if_pos rfl, hs, Option.map_some]
  have hsame : assembleBelow (t.restore 0) 1 = assembleBelow t 1 := by
    funext cs
    exact assembleBelow_congr cs (fun c _ k => assemble_congr c) fun k hk _ => by rw [hrestore, if_neg (by omega)]
  rw [toNode, (build_eq n none 0 hshaped hself).1, Nat.zero_add, hsame]

/-- Putting a table together reads off the tree that it holds. -/
theorem toNode_eq_assemble {n : Node} (h : t.Shaped 0 (slotsAt none 0 n)) (hr : t.isRemoved 0 = false) :
    assemble t 0 n = some t.toNode := by
  obtain ⟨s, hs, -⟩ := (Node.slotsAt_eq none 0 n ▸ h).head
  rw [isRemoved_eq hs, Bool.or_eq_false_iff] at hr
  rw [toNode_eq h hs, assemble_eq hs, hr.1]
  rfl

/-! ### Unedited tables -/

theorem assembleBelow_slotsBelow {p j : Nat} (cs : List Node) (h : Agrees (· = ·) t j (slotsBelow p j cs))
    (ih : ∀ c ∈ cs, ∀ q k, Agrees (· = ·) t k (slotsAt q k c) → assemble t k c = some c) :
    assembleBelow t j cs = cs := by
  induction cs generalizing j with
  | nil => rfl
  | cons n r ihr =>
    have hr := h.later
    simp [assembleBelow, ih n (by simp) _ _ h.left, ihr hr fun c hc => ih c (by simp [hc])]

theorem assemble_slotsAt (n : Node) (p : Option Nat) (i : Nat) (h : Agrees (· = ·) t i (slotsAt p i n)) :
    assemble t i n = some n := by
  induction n using Node.induct generalizing p i with
  | step n ih =>
    rw [Node.slotsAt_eq] at h
    obtain ⟨s, hs, rfl⟩ := h.head
    have hbelow := assembleBelow_slotsBelow n.childList h.tail ih
    rw [assemble_eq hs]
    obtain ⟨k, v, _ | cs, q, d⟩ := n
    · rfl
    · have hbelow : assembleBelow t (i + 1) cs = cs := hbelow
      simp [hbelow]

theorem shaped_slots (n : Node) : n.slots.Shaped 0 (slotsAt none 0 n) :=
  (agrees_slots n).mono fun u s hs hus => by
    obtain ⟨e, -, he, -⟩ := Node.mem_slotsAt hs
    exact ⟨by rw [hus], by rw [hus], by rw [hus], by rw [hus, he]⟩

/-- Taking a tree apart and putting it together again changes nothing. -/
theorem toNode_slots (n : Node) : n.slots.toNode = n := by
  have h := toNode_eq_assemble (shaped_slots n) (isRemoved_slots n 0)
  exact (Option.some.inj ((assemble_slotsAt n none 0 (agrees_slots n)).symm.trans h)).symm

/-! ### The nodes of a table -/

/-- The node at a place, unless it or one it stands under is removed. -/
def liveNode? (t : Slots) (i : Nat) : Option Node := if t.isRemoved i then none else t[i]?.map (·.node)

/-- The nodes at `n` places from `i` on that are left. -/
def liveNodes (t : Slots) (i n : Nat) : List Node := (List.range' i n).filterMap t.liveNode?

theorem liveNodes_one_add (t : Slots) (i n : Nat) :
    t.liveNodes i (1 + n) = (t.liveNode? i).toList ++ t.liveNodes (i + 1) n := by
  cases h : t.liveNode? i <;> simp [liveNodes, Nat.add_comm 1 n, List.range'_succ, h]

theorem liveNodes_add (t : Slots) (i m n : Nat) :
    t.liveNodes i (m + n) = t.liveNodes i m ++ t.liveNodes (i + m) n := by
  rw [liveNodes, ← List.range'_append_1, List.filterMap_append]
  rfl

theorem liveNodes_eq_nil {n : Nat} (h : ∀ k, i ≤ k → k < i + n → t.isRemoved k = true) : t.liveNodes i n = [] := by
  refine List.filterMap_eq_nil_iff.2 fun k hk => ?_
  rw [List.mem_range'_1] at hk
  simp [liveNode?, h k hk.1 hk.2]

theorem liveNodes_ne_nil {n k : Nat} {s : Slot} (hs : t[k]? = some s) (hr : t.isRemoved k = false) (hik : i ≤ k)
    (hk : k < i + n) : t.liveNodes i n ≠ [] :=
  List.ne_nil_of_mem (List.mem_filterMap.2 ⟨k, List.mem_range'_1.2 ⟨hik, hk⟩, show _ = some s.node by simp [liveNode?, hr, hs]⟩)

theorem isRemoved_of_parent {s : Slot} {p : Nat} (h : t[i]? = some s) (hp : s.parent = some p) (hlt : p < i)
    (hr : t.isRemoved p = true) : t.isRemoved i = true := by
  rw [isRemoved_eq h, hp]
  simp [hlt, hr]

theorem isRemoved_of_removed_root (n : Node) (p : Option Nat) (i : Nat) (h : t.Shaped i (slotsAt p i n))
    (hr : t.isRemoved i = true) : ∀ k, i ≤ k → k < i + n.size → t.isRemoved k = true := by
  induction n using Node.induct generalizing p i with
  | step n ih =>
    rw [Node.slotsAt_eq] at h
    refine forall_slotsAt hr (forall_slotsBelow n.childList h.tail fun c hc k hk hik => ?_)
    obtain ⟨s, hs, hparent, -⟩ := (Node.slotsAt_eq (some i) k c ▸ hk).head
    exact ih c hc _ _ hk (isRemoved_of_parent hs hparent (by omega) hr)

theorem nodes_assembleBelow {p j : Nat} (cs : List Node) (h : t.Shaped j (slotsBelow p j cs)) (hp : p < j)
    (ih : ∀ c ∈ cs, ∀ k, t.Shaped k (slotsAt (some p) k c) → p < k →
      (assemble t k c).elim [] (fun m => m.nodes.map fun e => { e with children := none }) = t.liveNodes k c.size) :
    ((assembleBelow t j cs).flatMap Node.nodes).map (fun e => { e with children := none }) =
      t.liveNodes j (sizes cs) := by
  induction cs generalizing j with
  | nil => rfl
  | cons n r ihr =>
    have hr := h.later
    have hn := ih n (by simp) j h.left hp
    rw [sizes, liveNodes_add, ← hn, ← ihr hr (by omega) fun c hc => ih c (by simp [hc]), assembleBelow]
    cases assemble t j n <;> simp

/-- The tree at a place has the nodes that are left there, if nothing above it is removed. -/
theorem nodes_assemble (n : Node) (p : Option Nat) (i : Nat) (h : t.Shaped i (slotsAt p i n))
    (hp : ∀ q ∈ p, q < i → t.isRemoved q = false) :
    (assemble t i n).elim [] (fun m => m.nodes.map fun e => { e with children := none }) = t.liveNodes i n.size := by
  induction n using Node.induct generalizing p i with
  | step n ih =>
    obtain ⟨s, hs, hparent, -, -, hchildren⟩ := (Node.slotsAt_eq p i n ▸ h).head
    have hremoved : t.isRemoved i = s.removed := by
      rw [isRemoved_eq hs, hparent]
      cases p with
      | none => simp
      | some q => by_cases hlt : q < i <;> simp [hlt, hp q rfl]
    rw [assemble_eq hs]
    cases hr : s.removed with
    | true => rw [liveNodes_eq_nil (isRemoved_of_removed_root n p i h (hremoved.trans hr))]; rfl
    | false =>
      have hlive : t.isRemoved i = false := hremoved.trans hr
      have hbelow := nodes_assembleBelow n.childList (Node.slotsAt_eq p i n ▸ h).tail (Nat.lt_succ_self i)
        fun c hc k hk _ => ih c hc _ _ hk fun q hq _ => by obtain rfl := Option.some.inj hq; exact hlive
      have hnode : t.liveNode? i = some s.node := by simp [liveNode?, hlive, hs]
      have hbare := bare_of_children hchildren
      rw [Node.size_eq, liveNodes_one_add, hnode, ← hbelow]
      simp only [Bool.false_eq_true, if_false, Option.elim_some, Node.nodes_eq, List.map_cons]
      cases hn : n.children <;> simp [Node.childList, hn, assembleBelow, hbare]

/-- A table's tree has the nodes that are left in the table. -/
theorem nodes_toNode {n : Node} (h : t.Shaped 0 (slotsAt none 0 n)) (hr : t.isRemoved 0 = false) :
    t.toNode.nodes.map (fun e => { e with children := none }) = t.liveNodes 0 n.size := by
  rw [← nodes_assemble n none 0 h (by simp), toNode_eq_assemble h hr]
  rfl

/-! ### The text of a table -/

/-- The value at a place, unless the node there or one it stands under is removed. -/
def liveValue (t : Slots) (i : Nat) : String :=
  if t.isRemoved i then "" else (t[i]?.bind (·.node.value)).getD ""

/-- The values of `n` places from `i` on that are left. -/
def liveText (t : Slots) (i n : Nat) : String := String.join ((List.range' i n).map t.liveValue)

theorem liveText_one_add (t : Slots) (i n : Nat) :
    t.liveText i (1 + n) = t.liveValue i ++ t.liveText (i + 1) n := by
  simp [liveText, Nat.add_comm 1 n, List.range'_succ]

theorem liveText_add (t : Slots) (i m n : Nat) :
    t.liveText i (m + n) = t.liveText i m ++ t.liveText (i + m) n := by
  rw [liveText, ← List.range'_append_1, List.map_append, String.join_append]
  rfl

theorem liveText_congr {n : Nat} (h : ∀ k, i ≤ k → k < i + n → t.liveValue k = u.liveValue k) :
    t.liveText i n = u.liveText i n := by
  unfold liveText
  congr 1
  refine List.map_congr_left fun k hk => ?_
  rw [List.mem_range'_1] at hk
  exact h k hk.1 hk.2

theorem join_range'_eq_empty {f : Nat → String} {n : Nat} (h : ∀ k, i ≤ k → k < i + n → f k = "") :
    String.join ((List.range' i n).map f) = "" := by
  induction n generalizing i with
  | zero => rfl
  | succ n ih =>
    rw [List.range'_succ, List.map_cons, String.join_cons, h i (Nat.le_refl i) (by omega),
      ih fun k hk hk' => h k (by omega) (by omega)]
    rfl

theorem liveText_eq_empty {n : Nat} (h : ∀ k, i ≤ k → k < i + n → t.liveValue k = "") :
    t.liveText i n = "" :=
  join_range'_eq_empty h

/-- The text of a table is that of the nodes that are left. -/
theorem liveText_eq_join (t : Slots) (i n : Nat) :
    t.liveText i n = String.join ((t.liveNodes i n).map (·.value.getD "")) := by
  rw [liveText, liveNodes, List.map_filterMap]
  induction List.range' i n with
  | nil => rfl
  | cons k r ih =>
    have hvalue : t.liveValue k = ((t.liveNode? k).map (·.value.getD "")).getD "" := by
      cases hr : t.isRemoved k <;> cases hs : t[k]? <;> simp [liveValue, liveNode?, hr, hs]
    rw [List.map_cons, String.join_cons, ih, hvalue]
    cases h : t.liveNode? k <;> simp [h]

/-- A table's tree has the text that is left in the table. -/
theorem textContent_toNode {n : Node} (h : t.Shaped 0 (slotsAt none 0 n)) (hr : t.isRemoved 0 = false) :
    t.toNode.textContent = t.liveText 0 n.size := by
  rw [liveText_eq_join, ← nodes_toNode h hr, Node.textContent_eq_join, List.map_map]
  rfl

end Slots
end RichDoc
