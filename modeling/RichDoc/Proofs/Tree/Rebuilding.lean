import RichDoc.Proofs.Tree.Places

/-!
# Rebuilding a tree from its table

A pass changes nodes of a table and removes some, in any order (`Change`, `applyAll`). The tree that is put together
afterwards is the old one with every node changed as the slot of its number was, less the subtrees of the removed nodes
other than the root (`Node.revise`). A place counts as removed exactly when it or one it stands under was removed.

What the changes do is told slot by slot (`getElem?_apply`, `getElem?_applyAll`): a slot keeps its parent and the places
of its children, which are those of the nodes in the tree (`links_changed`). So the table keeps the shape of the tree it was
made from, and the proofs go along that tree.
-/

namespace RichDoc

namespace Node
variable {n : Node} {f : Nat → Node → Node} {R : Nat → Bool} {i : Nat}

mutual
/-- The tree with its node at each place changed by `f` and the subtrees at the places in `R` left out, if its root has
place `i`. The root itself stays. -/
def revise (f : Nat → Node → Node) (R : Nat → Bool) (i : Nat) : Node → Node
  | ⟨k, v, cs, p, d⟩ => { f i ⟨k, v, none, p, d⟩ with children := reviseBelow? f R (i + 1) cs }

/-- The children from place `i` on of a node that may have no list of them. -/
def reviseBelow? (f : Nat → Node → Node) (R : Nat → Bool) (i : Nat) : Option (List Node) → Option (List Node)
  | none => none
  | some cs => some (reviseBelow f R i cs)

/-- The trees from place `i` on. -/
def reviseBelow (f : Nat → Node → Node) (R : Nat → Bool) (i : Nat) : List Node → List Node
  | [] => []
  | c :: r => (if R i then [] else [revise f R i c]) ++ reviseBelow f R (i + c.size) r
end

theorem revise_eq (f : Nat → Node → Node) (R : Nat → Bool) (i : Nat) (n : Node) :
    n.revise f R i = { f i { n with children := none } with children := n.children.map (reviseBelow f R (i + 1)) } := by
  obtain ⟨k, v, _ | cs, p, d⟩ := n <;> rfl

end Node

namespace Slots
open Node (slotsAt slotsBelow sizes starts reviseBelow IsChild)
variable {n m : Node} {t u : Slots} {cs : List Node} {i j k : Nat} {s : Slot}

/-! ### Changing a table -/

/-- What a pass does to one slot. -/
inductive Change where
  | edit (i : Nat) (f : Node → Node)
  | remove (i : Nat)

/-- What the change makes of the node at place `k`. -/
def Change.on (k : Nat) (n : Node) : Change → Node
  | edit i f => if i = k then { f n with children := none } else n
  | remove _ => n

def Change.removes (k : Nat) : Change → Bool
  | edit _ _ => false
  | remove i => i = k

def apply (t : Slots) : Change → Slots
  | .edit i f => t.edit i f
  | .remove i => t.remove i

def applyAll (t : Slots) (changes : List Change) : Slots := changes.foldl apply t

/-- What the changes make of the node at place `k`, one after the other. -/
def edited (changes : List Change) (k : Nat) (n : Node) : Node := changes.foldl (Change.on k) n

def removed (changes : List Change) (k : Nat) : Bool := changes.any (Change.removes k)

theorem removed_iff {changes : List Change} : removed changes k = true ↔ .remove k ∈ changes := by
  rw [removed, List.any_eq_true]
  constructor
  · rintro ⟨c, hc, hk⟩
    cases c with
    | edit i f => cases hk
    | remove i =>
      obtain rfl : i = k := by simpa [Change.removes] using hk
      exact hc
  · intro h
    exact ⟨_, h, by simp [Change.removes]⟩

theorem getElem?_apply (t : Slots) (c : Change) (k : Nat) :
    (t.apply c)[k]? = t[k]?.map fun s => { s with node := c.on k s.node, removed := s.removed || c.removes k } := by
  cases c with
  | edit i f =>
    rw [apply, getElem?_edit]
    cases t[k]? <;> by_cases h : i = k <;> simp [Change.on, Change.removes, h]
  | remove i =>
    rw [apply, getElem?_remove]
    cases t[k]? <;> by_cases h : i = k <;> simp [Change.on, Change.removes, h]

theorem getElem?_applyAll (t : Slots) (changes : List Change) (k : Nat) :
    (t.applyAll changes)[k]? =
      t[k]?.map fun s => { s with node := edited changes k s.node, removed := s.removed || removed changes k } := by
  induction changes generalizing t with
  | nil => simp [applyAll, edited, removed]
  | cons c r ih =>
    show ((t.apply c).applyAll r)[k]? = _
    rw [ih, getElem?_apply, Option.map_map]
    congr 1
    funext s
    simp [edited, removed, Bool.or_assoc]

theorem getElem?_applyAll_of_slot (hs : t[k]? = some s) (changes : List Change) : (t.applyAll changes)[k]? =
    some { s with node := edited changes k s.node, removed := s.removed || removed changes k } := by
  rw [getElem?_applyAll, hs, Option.map_some]

theorem children_on {c : Change} (h : m.children = none) : (c.on k m).children = none := by
  cases c with
  | edit i f => by_cases hi : i = k <;> simp [Change.on, hi, h]
  | remove i => exact h

theorem children_edited {changes : List Change} (h : m.children = none) : (edited changes k m).children = none := by
  induction changes generalizing m with
  | nil => exact h
  | cons c r ih => exact ih (children_on h)

/-- Changes leave a table in its shape. -/
theorem shaped_applyAll (n : Node) (changes : List Change) : (n.slots.applyAll changes).Shaped 0 (slotsAt none 0 n) := by
  intro k s hs
  obtain ⟨v, hv, hparent, hchildren, hlist, hbare⟩ := shaped_slots n k s hs
  exact ⟨_, getElem?_applyAll_of_slot hv changes, hparent, hchildren, hlist, children_edited hbare⟩

/-! ### The tree of a changed table -/

/-- Below the root of a changed table stand the changed trees. -/
theorem assembleBelow_revised {f : Nat → Node → Node} {R : Nat → Bool} {p j : Nat} (cs : List Node)
    (ht : Agrees (· = ·) t j (slotsBelow p j cs))
    (ih : ∀ c ∈ cs, ∀ k, j ≤ k → Agrees (· = ·) t k (slotsAt (some p) k c) →
      assemble u k c = if R k then none else some (c.revise f R k)) :
    assembleBelow u j cs = reviseBelow f R j cs := by
  induction cs generalizing j with
  | nil => rfl
  | cons c r ihr =>
    have hr := ht.later
    rw [assembleBelow, reviseBelow, ih c (by simp) j (Nat.le_refl j) ht.left,
      ihr hr fun d hd k hk => ih d (by simp [hd]) k (by omega)]
    cases R j <;> rfl

theorem assemble_revised {f : Nat → Node → Node} {R : Nat → Bool} (n : Node) (p : Option Nat) (i : Nat)
    (ht : Agrees (· = ·) t i (slotsAt p i n))
    (hu : ∀ k, i ≤ k → u[k]? = t[k]?.map fun s => { s with node := f k s.node, removed := s.removed || R k }) :
    assemble u i n = if R i then none else some (n.revise f R i) := by
  induction n using Node.induct generalizing p i with
  | step n ih =>
    rw [Node.slotsAt_eq] at ht
    obtain ⟨s, hs, rfl⟩ := ht.head
    have hslot := hu i (Nat.le_refl i)
    rw [hs, Option.map_some] at hslot
    have hbelow : assembleBelow u (i + 1) n.childList = reviseBelow f R (i + 1) n.childList :=
      assembleBelow_revised n.childList ht.tail fun c hc k hk hagrees =>
        ih c hc (some i) k hagrees fun l hl => hu l (by omega)
    rw [assemble_eq hslot, Node.revise_eq, Bool.false_or]
    obtain ⟨kind, v, _ | cs, q, d⟩ := n
    · rfl
    · have hbelow : assembleBelow u (i + 1) cs = reviseBelow f R (i + 1) cs := hbelow
      simp only [Option.map_some, hbelow]

theorem toNode_changed (n : Node) (changes : List Change) :
    (n.slots.applyAll changes).toNode = n.revise (edited changes) (removed changes) 0 := by
  have hagrees : Agrees (· = ·) n.slots 0 (slotsAt none 0 n) := agrees_slots n
  rw [Node.slotsAt_eq] at hagrees
  have hroot : n.slots[0]? =
      some ⟨{ n with children := none }, none, starts 1 n.childList, n.children.isSome, false⟩ := by
    simp [Node.slots_eq, Node.slotsAt_eq]
  have hslot := getElem?_applyAll_of_slot hroot changes
  have hbelow : assembleBelow (n.slots.applyAll changes) 1 n.childList =
      reviseBelow (edited changes) (removed changes) 1 n.childList :=
    assembleBelow_revised n.childList hagrees.tail fun c _ k _ hc =>
      assemble_revised c (some 0) k hc fun l _ => getElem?_applyAll n.slots changes l
  rw [toNode_eq (shaped_applyAll n changes) hslot, Node.revise_eq]
  obtain ⟨kind, v, _ | cs, p, d⟩ := n
  · rfl
  · have hbelow : assembleBelow _ 1 cs = reviseBelow (edited changes) (removed changes) 1 cs := hbelow
    simp only [Option.map_some, hbelow]

/-! ### Removed places -/

/-- A place counts as removed when it or one it stands under was removed. -/
theorem isRemoved_changed (n : Node) (changes : List Change) (j : Nat) :
    (n.slots.applyAll changes).isRemoved j = true ↔
      ∃ i < n.size, .remove i ∈ changes ∧ Relation.ReflTransGen n.IsChild i j := by
  constructor
  · intro h
    induction j using Nat.strongRecOn with
    | ind j ih =>
      cases hs : n.slots[j]? with
      | none =>
        rw [isRemoved_of_none (by rw [getElem?_applyAll, hs]; rfl)] at h
        cases h
      | some s =>
        rw [isRemoved_eq (getElem?_applyAll_of_slot hs changes), Node.removed_slots hs, Bool.false_or,
          Bool.or_eq_true] at h
        rcases h with h | h
        · have hj : j < n.size := by simpa using (Array.getElem?_eq_some_iff.1 hs).1
          exact ⟨j, hj, removed_iff.1 h, .refl⟩
        · -- or the parent is removed, and what it stands under stands above the place too
          obtain ⟨p, hp, hlt⟩ := (Option.any_eq_true _ _).1 h
          rw [Bool.and_eq_true, decide_eq_true_iff] at hlt
          obtain ⟨i, hi, hmem, hpath⟩ := ih p hlt.1 hlt.2
          have hchild : n.IsChild p j := Node.parent_slots_eq_some_iff.1 (by rw [hs]; exact hp)
          exact ⟨i, hi, hmem, hpath.tail hchild⟩
  · rintro ⟨i, hi, hmem, hpath⟩
    induction hpath with
    | refl =>
      rw [← Node.size_slots] at hi
      have hs : n.slots[i]? = some n.slots[i] := Array.getElem?_eq_getElem hi
      rw [isRemoved_eq (getElem?_applyAll_of_slot hs changes), removed_iff.2 hmem, Bool.or_true, Bool.true_or]
    | @tail p k _ hchild ih =>
      obtain ⟨s, hs, hparent⟩ := Option.bind_eq_some_iff.1 (Node.parent_slots_eq_some_iff.2 hchild)
      exact isRemoved_of_parent (getElem?_applyAll_of_slot hs changes) hparent hchild.lt ih

/-! ### The whole pass -/

theorem node_changed (n : Node) (changes : List Change) (k : Nat) :
    (n.slots.applyAll changes)[k]?.map (·.node) =
      n.nodes[k]?.map fun e => edited changes k { e with children := none } := by
  have hnodes := congrArg (Option.map (edited changes k)) (Node.getElem?_slots n k)
  rw [Option.map_map, Option.map_map] at hnodes
  rw [getElem?_applyAll, Option.map_map]
  exact hnodes

/-- The table says who is whose child as the tree does, from both sides, whatever was changed in it. -/
theorem links_changed (changes : List Change) (hs : (n.slots.applyAll changes)[k]? = some s) :
    (∀ p, s.parent = some p ↔ n.IsChild p k) ∧ (∀ j, j ∈ s.children ↔ n.IsChild k j) ∧ s.children.Pairwise (· < ·) ∧
      ∃ m, n.nodes[k]? = some m ∧ s.isParent = m.children.isSome := by
  rw [getElem?_applyAll] at hs
  obtain ⟨v, hv, rfl⟩ := Option.map_eq_some_iff.1 hs
  have hk : k < n.nodes.length := by
    rw [Node.length_nodes, ← Node.size_slots]
    exact (Array.getElem?_eq_some_iff.1 hv).1
  have hm : n.nodes[k]? = some n.nodes[k] := List.getElem?_eq_getElem hk
  obtain ⟨p, hslot⟩ := Node.exists_slot hm
  refine ⟨fun q => ?_, ?_⟩
  · rw [← Node.parent_slots_eq_some_iff, hv, Option.bind_some]
  · obtain rfl := Option.some.inj (hv.symm.trans hslot)
    exact ⟨fun j => (Node.isChild_iff_mem_starts hm).symm, Node.pairwise_starts _ _, _, hm, rfl⟩

/-- A table is a faithful copy of its tree under changes and removals. Its slots are the nodes in document order, as they
were changed, each with the places of its parent and its children; put together, they give the tree with each node as its
slot was left, less the subtrees of the removed nodes but the root; a place counts as removed when it or one it stands
under was removed. Unchanged, the table gives the tree itself. -/
theorem toNode_applyAll (n : Node) (changes : List Change) :
    (∀ k, (n.slots.applyAll changes)[k]?.map (·.node) =
      n.nodes[k]?.map fun e => edited changes k { e with children := none }) ∧
    (∀ k s, (n.slots.applyAll changes)[k]? = some s →
      (∀ p, s.parent = some p ↔ n.IsChild p k) ∧ (∀ j, j ∈ s.children ↔ n.IsChild k j) ∧ s.children.Pairwise (· < ·) ∧
        ∃ m, n.nodes[k]? = some m ∧ s.isParent = m.children.isSome) ∧
    (n.slots.applyAll changes).toNode = n.revise (edited changes) (removed changes) 0 ∧
    (∀ j, (n.slots.applyAll changes).isRemoved j = true ↔
      ∃ i < n.size, .remove i ∈ changes ∧ Relation.ReflTransGen n.IsChild i j) ∧
    n.slots.toNode = n :=
  ⟨node_changed n changes, fun _ _ => links_changed changes, toNode_changed n changes, isRemoved_changed n changes,
    toNode_slots n⟩

/-- The list of a node that loses its only child stays, and so does a root that is removed. -/
example :
    let n : Node := .parent .root [.parent .paragraph [.literal .text "x"], .void .thematicBreak]
    (n.slots.applyAll [.remove 2, .edit 3 fun m => { m with kind := .break }, .remove 0]).toNode =
      .parent .root [.parent .paragraph [], .void .break] := by decide +kernel

end Slots
end RichDoc
