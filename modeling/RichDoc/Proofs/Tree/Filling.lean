import RichDoc.Proofs.Tree.Nodes
import RichDoc.Tree.Slots

/-!
# Filling a table

Pushing a tree adds its nodes to a table one by one, and tells the slot of each the places of its children as they are
added. `Node.slotsAt` says at once what is added: the nodes in document order, each with the place of its parent and
those where its children start (`push_eq`). So the table of a tree is this list (`slots_eq`).
-/

namespace RichDoc
namespace Node

mutual
/-- Number of nodes. -/
def size : Node → Nat
  | ⟨_, _, cs, _, _⟩ => 1 + sizes? cs

/-- Number of nodes below a list of children that may be absent. -/
def sizes? : Option (List Node) → Nat
  | none => 0
  | some cs => sizes cs

/-- Number of nodes of several trees. -/
def sizes : List Node → Nat
  | [] => 0
  | n :: r => size n + sizes r
end

/-- Where trees begin that follow one another from place `k` on. -/
def starts (k : Nat) : List Node → List Nat
  | [] => []
  | c :: r => k :: starts (k + c.size) r

mutual
/-- The slots of a tree whose root goes to place `i` under `parent`. -/
def slotsAt (parent : Option Nat) (i : Nat) : Node → List Slot
  | ⟨k, v, cs, p, d⟩ =>
    ⟨⟨k, v, none, p, d⟩, parent, starts (i + 1) (cs.getD []), cs.isSome, false⟩ :: slotsBelow? i cs

/-- The slots of a list of children, which may be absent, of the node at place `i`. -/
def slotsBelow? (i : Nat) : Option (List Node) → List Slot
  | none => []
  | some cs => slotsBelow i (i + 1) cs

/-- The slots of the children of the node at place `i`, the first going to place `j`. -/
def slotsBelow (i j : Nat) : List Node → List Slot
  | [] => []
  | n :: r => slotsAt (some i) j n ++ slotsBelow i (j + size n) r
end

theorem size_eq (n : Node) : n.size = 1 + sizes n.childList := by
  obtain ⟨k, v, _ | cs, p, d⟩ := n <;> rfl

theorem slotsAt_eq (p : Option Nat) (i : Nat) (n : Node) :
    slotsAt p i n =
      ⟨{ n with children := none }, p, starts (i + 1) n.childList, n.children.isSome, false⟩ ::
        slotsBelow i (i + 1) n.childList := by
  obtain ⟨k, v, _ | cs, q, d⟩ := n <;> rfl

theorem length_slotsBelow_of (i j : Nat) (cs : List Node)
    (h : ∀ c ∈ cs, ∀ p k, (slotsAt p k c).length = c.size) : (slotsBelow i j cs).length = sizes cs := by
  induction cs generalizing j with
  | nil => rfl
  | cons n r ih => simp [slotsBelow, sizes, h n, ih (j + n.size) fun c hc => h c (by simp [hc])]

@[simp] theorem length_slotsAt (n : Node) (p : Option Nat) (i : Nat) : (slotsAt p i n).length = n.size := by
  induction n using induct generalizing p i with
  | step n ih => rw [slotsAt_eq, size_eq, List.length_cons, length_slotsBelow_of _ _ _ ih, Nat.add_comm]

@[simp] theorem length_slotsBelow (i j : Nat) (cs : List Node) : (slotsBelow i j cs).length = sizes cs :=
  length_slotsBelow_of i j cs fun c _ p k => length_slotsAt c p k

theorem mem_slotsBelow {i j : Nat} {cs : List Node} {s : Slot} (h : s ∈ slotsBelow i j cs) :
    ∃ c ∈ cs, ∃ k, s ∈ slotsAt (some i) k c := by
  induction cs generalizing j with
  | nil => simp [slotsBelow] at h
  | cons n r ih =>
    rcases List.mem_append.1 h with h | h
    · exact ⟨n, by simp, j, h⟩
    · obtain ⟨c, hc, k, hs⟩ := ih h
      exact ⟨c, by simp [hc], k, hs⟩

/-- The slots of a tree hold its nodes without their children, and none is removed. -/
theorem mem_slotsAt {n : Node} {p : Option Nat} {i : Nat} {s : Slot} (h : s ∈ slotsAt p i n) :
    ∃ e ∈ n.nodes, s.node = { e with children := none } ∧ s.removed = false := by
  induction n using induct generalizing p i with
  | step n ih =>
    rw [slotsAt_eq] at h
    rcases List.mem_cons.1 h with rfl | h
    · exact ⟨n, n.self_mem_nodes, rfl, rfl⟩
    · obtain ⟨c, hc, k, hs⟩ := mem_slotsBelow h
      obtain ⟨e, he, hse⟩ := ih c hc hs
      exact ⟨e, mem_nodes.2 (.inr ⟨c, hc, he⟩), hse⟩

theorem map_node_slotsBelow (i j : Nat) (cs : List Node)
    (h : ∀ c ∈ cs, ∀ p k, (slotsAt p k c).map (·.node) = c.nodes.map fun e => { e with children := none }) :
    (slotsBelow i j cs).map (·.node) = (cs.flatMap nodes).map fun e => { e with children := none } := by
  induction cs generalizing j with
  | nil => rfl
  | cons n r ih =>
    rw [slotsBelow, List.map_append, h n (by simp), ih _ fun c hc => h c (by simp [hc]), List.flatMap_cons,
      List.map_append]

theorem map_node_slotsAt (n : Node) (p : Option Nat) (i : Nat) :
    (slotsAt p i n).map (·.node) = n.nodes.map fun e => { e with children := none } := by
  induction n using induct generalizing p i with
  | step n ih => rw [slotsAt_eq, List.map_cons, map_node_slotsBelow _ _ _ ih, nodes_eq, List.map_cons]

theorem length_nodes (n : Node) : n.nodes.length = n.size := by
  simpa using congrArg List.length (map_node_slotsAt n none 0).symm

theorem size_pos (n : Node) : 0 < n.size := by
  rw [size_eq]
  omega

theorem slotsBelow_append (i j : Nat) (cs ds : List Node) :
    slotsBelow i j (cs ++ ds) = slotsBelow i j cs ++ slotsBelow i (j + sizes cs) ds := by
  induction cs generalizing j with
  | nil => simp [slotsBelow, sizes]
  | cons c r ih => simp [slotsBelow, sizes, ih, Nat.add_assoc]

theorem sizes_append (cs ds : List Node) : sizes (cs ++ ds) = sizes cs + sizes ds := by
  induction cs with
  | nil => simp [sizes]
  | cons c r ih => simp [sizes, ih, Nat.add_assoc]

end Node

namespace Slots
open Node (slotsAt slotsBelow starts sizes)
variable {t : Slots} {i : Nat}

theorem push_cons (t : Slots) (p : Option Nat) (n : Node) : push t p n =
    pushBelow (Array.push t ⟨{ n with children := none }, p, [], n.children.isSome, false⟩) t.size n.childList := by
  obtain ⟨k, v, _ | cs, q, d⟩ := n <;> rfl

theorem modify_append (u : Slots) (f : Slot → Slot) (hi : i < t.size) : (t ++ u).modify i f = t.modify i f ++ u := by
  apply Array.ext_getElem?
  intro k
  rw [Array.getElem?_modify, Array.getElem?_append, Array.getElem?_append, Array.getElem?_modify, Array.size_modify]
  by_cases hk : k < t.size
  · rw [if_pos hk, if_pos hk]
  · rw [if_neg hk, if_neg hk, if_neg (by omega)]

theorem modify_push (t : Slots) (s : Slot) (f : Slot → Slot) : (Array.push t s).modify t.size f = Array.push t (f s) := by
  apply Array.ext_getElem?
  intro k
  rw [Array.getElem?_modify, Array.getElem?_push, Array.getElem?_push]
  by_cases hk : k = t.size
  · simp [hk]
  · rw [if_neg (Ne.symm hk), if_neg hk, if_neg hk]

/-- The slot at place `i` is told the places `ks` of further children. -/
def note (t : Slots) (i : Nat) (ks : List Nat) : Slots := t.modify i fun s => { s with children := s.children ++ ks }

theorem note_nil (t : Slots) (i : Nat) : note t i [] = t := by
  apply Array.ext_getElem?
  intro k
  rw [note, Array.getElem?_modify]
  split
  · cases t[k]? <;> simp
  · rfl

theorem note_note (t : Slots) (i k : Nat) (ks : List Nat) : note (note t i [k]) i ks = note t i (k :: ks) := by
  apply Array.ext_getElem?
  intro l
  simp only [note, Array.getElem?_modify]
  split
  · cases t[l]? <;> simp
  · rfl

/-- Children are added at the end, and the slot of their parent is told where they start. -/
theorem pushBelow_eq (cs : List Node) (hi : i < t.size)
    (ih : ∀ c ∈ cs, ∀ (t : Slots) (p : Option Nat), push t p c = t ++ (slotsAt p t.size c).toArray) :
    pushBelow t i cs = note t i (starts t.size cs) ++ (slotsBelow i t.size cs).toArray := by
  induction cs generalizing t with
  | nil => simp [pushBelow, starts, slotsBelow, note_nil]
  | cons c r ihr =>
    have hsize : (note t i [t.size] ++ (slotsAt (some i) t.size c).toArray).size = t.size + c.size := by simp [note]
    have hfirst : (push t (some i) c).modify i (fun s => { s with children := s.children ++ [t.size] }) =
        note t i [t.size] ++ (slotsAt (some i) t.size c).toArray := by
      rw [ih c (by simp), modify_append _ _ hi]
      rfl
    have hrest := ihr (t := note t i [t.size] ++ (slotsAt (some i) t.size c).toArray) (by omega)
      fun d hd => ih d (by simp [hd])
    rw [pushBelow, hfirst, hrest, hsize, note, modify_append _ _ (by simpa [note] using hi), ← note, note_note, starts,
      slotsBelow, Array.append_assoc]
    simp

theorem push_eq (t : Slots) (p : Option Nat) (n : Node) : push t p n = t ++ (slotsAt p t.size n).toArray := by
  induction n using Node.induct generalizing t p with
  | step n ih =>
    rw [push_cons, pushBelow_eq n.childList (by simp) ih, note, modify_push, Node.slotsAt_eq, Array.size_push]
    simp

end Slots

namespace Node

theorem slots_eq (n : Node) : n.slots = (slotsAt none 0 n).toArray := by
  simp [slots, Slots.push_eq]

@[simp] theorem size_slots (n : Node) : n.slots.size = n.size := by simp [slots_eq]

theorem getElem?_slots (n : Node) (k : Nat) :
    n.slots[k]?.map (·.node) = n.nodes[k]?.map fun e => { e with children := none } := by
  rw [← List.getElem?_map, ← map_node_slotsAt n none 0, List.getElem?_map]
  simp [slots_eq]

theorem removed_slots {n : Node} {k : Nat} {s : Slot} (hs : n.slots[k]? = some s) : s.removed = false := by
  obtain ⟨e, -, -, hlive⟩ := mem_slotsAt (List.mem_of_getElem? (by simpa [slots_eq] using hs))
  exact hlive

end Node
end RichDoc
