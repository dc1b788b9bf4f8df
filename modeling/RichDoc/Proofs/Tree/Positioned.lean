import Mathlib.Data.List.Chain
import RichDoc.Proofs.Tree.Table

/-!
# Trees with all positions in order

In a well-positioned tree each node has a span, the spans of its children lie in it one after the other, and
only the root's may be empty. In the table of such a tree spans grow from a node to its parent
(`parent_of_wellPositioned`), and all that comes after a node without children starts where that one stops or
later (`start_of_wellPositioned`).
-/

namespace RichDoc

namespace Node

/-- `b` does not start before `a` stops. -/
def Before (a b : Node) : Prop := ∀ p ∈ a.span, ∀ q ∈ b.span, p.stop ≤ q.start

/-- The node has a span that is not empty and lies in `p`. -/
def Inside (p : Span) (n : Node) : Prop := ∃ q ∈ n.span, q.start < q.stop ∧ q.within p = true

/-- The node has a span, those of its children are in order inside it, and a node with a value has no
children. -/
structure OrderlyAt (n : Node) : Prop where
  placed : ∃ p ∈ n.span, ∀ c ∈ n.childList, c.Inside p
  siblings : n.childList.IsChain Before
  childless : n.value.isSome = true → n.childList = []

/-- Every node stands in order. -/
def WellPositioned (n : Node) : Prop := ∀ e ∈ n.nodes, e.OrderlyAt

instance (a b : Node) : Decidable (a.Before b) := by
  unfold Before
  infer_instance

instance (p : Span) (n : Node) : Decidable (n.Inside p) := by
  unfold Inside
  infer_instance

instance : DecidablePred OrderlyAt := fun n =>
  decidable_of_iff ((∃ p ∈ n.span, ∀ c ∈ n.childList, c.Inside p) ∧ n.childList.IsChain Before ∧
      (n.value.isSome = true → n.childList = []))
    ⟨fun ⟨hp, hs, hc⟩ => ⟨hp, hs, hc⟩, fun h => ⟨h.placed, h.siblings, h.childless⟩⟩

instance : DecidablePred WellPositioned := fun n => by
  unfold WellPositioned
  infer_instance

theorem WellPositioned.self {n : Node} (h : n.WellPositioned) : n.OrderlyAt := h n n.self_mem_nodes

theorem WellPositioned.child {n c : Node} (h : n.WellPositioned) (hc : c ∈ n.childList) : c.WellPositioned :=
  forall_child h hc

theorem Inside.mono {p q : Span} {n : Node} (h : n.Inside p) (hpq : p.within q = true) : n.Inside q :=
  let ⟨r, hr, hne, hrp⟩ := h
  ⟨r, hr, hne, Span.within_trans hrp hpq⟩

/-- All nodes of a tree lie where its root lies. -/
theorem WellPositioned.inside {n : Node} (h : n.WellPositioned) {p : Span} (hp : n.Inside p) :
    ∀ e ∈ n.nodes, e.Inside p := by
  induction n using induct generalizing p with
  | step n ih =>
    intro e he
    rcases mem_nodes.1 he with rfl | ⟨c, hc, he⟩
    · exact hp
    · obtain ⟨q, hq, hin⟩ := h.self.placed
      obtain ⟨r, hr, -, hrp⟩ := hp
      obtain rfl : q = r := Option.some.inj (hq.symm.trans hr)
      exact (ih c hc (h.child hc) (hin c hc) e he).mono hrp

/-- In a chain of siblings that all have spans, what comes later starts later. -/
theorem before_of_isChain {n c : Node} {r : List Node} {p : Span} (h : (n :: r).IsChain Before)
    (hin : ∀ c ∈ n :: r, c.Inside p) (hc : c ∈ r) : n.Before c := by
  induction r generalizing n with
  | nil => simp at hc
  | cons m r ih =>
    obtain ⟨hnm, hr⟩ := List.isChain_cons_cons.1 h
    rcases List.mem_cons.1 hc with rfl | hc
    · exact hnm
    · have hmc := ih hr (fun c hc => hin c (List.mem_cons_of_mem _ hc)) hc
      obtain ⟨q, hq, hne, -⟩ := hin m (by simp)
      intro a ha b hb
      have h₁ := hnm a ha q hq
      have h₂ := hmc q hq b hb
      omega

end Node

namespace Slots
open Node (slotsAt slotsBelow sizes)
variable {t : Slots} {n : Node}

/-- A place after that of a node with a value. -/
def StartsAfter (a b : Slot) : Prop := a.node.value.isSome = true → a.node.Before b.node

/-- A relation holds between the slots of a well-positioned tree, each with the later ones, if it holds of a node with
all below it and of two nodes of which one stops before the other starts. -/
theorem pairwise_slotsBelow {R : Slot → Slot → Prop} {p : Span} {i j : Nat}
    (happart : ∀ a b : Slot, a.node.Inside p → a.node.Before b.node → R a b) (cs : List Node)
    (hin : ∀ c ∈ cs, c.Inside p) (hchain : cs.IsChain Node.Before) (hwp : ∀ c ∈ cs, c.WellPositioned)
    (ih : ∀ c ∈ cs, ∀ q k, (slotsAt q k c).Pairwise R) : (slotsBelow i j cs).Pairwise R := by
  induction cs generalizing j with
  | nil => exact .nil
  | cons n r ihr =>
    refine List.pairwise_append.2 ⟨ih n (by simp) _ _, ihr (fun c hc => hin c (by simp [hc])) hchain.tail
      (fun c hc => hwp c (by simp [hc])) fun c hc => ih c (by simp [hc]), fun a ha b hb => ?_⟩
    -- the two nodes lie in siblings, the first in `n` and the second in a later one
    obtain ⟨e, he, hae, -⟩ := Node.mem_slotsAt ha
    obtain ⟨c, hc, k, hb⟩ := Node.mem_slotsBelow hb
    obtain ⟨f, hf, hbf, -⟩ := Node.mem_slotsAt hb
    have hbefore := Node.before_of_isChain hchain hin hc
    obtain ⟨pn, hpn, hpn', -⟩ := hin n (by simp)
    obtain ⟨pc, hpc, hpc', -⟩ := hin c (by simp [hc])
    obtain ⟨pe, hpe, -, hen⟩ := (hwp n (by simp)).inside ⟨pn, hpn, hpn', Span.within_refl pn⟩ e he
    obtain ⟨pf, hpf, -, hfc⟩ := (hwp c (by simp [hc])).inside ⟨pc, hpc, hpc', Span.within_refl pc⟩ f hf
    have hea := (hwp n (by simp)).inside (hin n (by simp)) e he
    refine happart a b (hae ▸ hea) fun x hx y hy => ?_
    rw [hae] at hx
    rw [hbf] at hy
    obtain rfl : pe = x := Option.some.inj (hpe.symm.trans hx)
    obtain rfl : pf = y := Option.some.inj (hpf.symm.trans hy)
    have := hbefore pn hpn pc hpc
    rw [Span.within_iff] at hen hfc
    omega

theorem pairwise_slotsAt (h : n.WellPositioned) (p : Option Nat) (i : Nat) :
    (slotsAt p i n).Pairwise StartsAfter := by
  induction n using Node.induct generalizing p i with
  | step n ih =>
    obtain ⟨q, -, hin⟩ := h.self.placed
    rw [Node.slotsAt_eq]
    have happart (a b : Slot) (_ : a.node.Inside q) (hbefore : a.node.Before b.node) : StartsAfter a b :=
      fun _ => hbefore
    refine List.pairwise_cons.2 ⟨fun b hb hv => ?_, pairwise_slotsBelow happart n.childList hin h.self.siblings
      (fun c hc => h.child hc) fun c hc => ih c hc (h.child hc)⟩
    rw [h.self.childless hv] at hb
    simp [slotsBelow] at hb

/-- The second node does not start before the first. -/
def StartsLater (a b : Slot) : Prop := ∀ p ∈ a.node.span, ∀ q ∈ b.node.span, p.start ≤ q.start

theorem pairwise_startsLater (h : n.WellPositioned) (p : Option Nat) (i : Nat) :
    (slotsAt p i n).Pairwise StartsLater := by
  induction n using Node.induct generalizing p i with
  | step n ih =>
    obtain ⟨q, hq, hin⟩ := h.self.placed
    rw [Node.slotsAt_eq]
    have happart (a b : Slot) (ha : a.node.Inside q) (hbefore : a.node.Before b.node) : StartsLater a b := by
      obtain ⟨r, hr, hne, -⟩ := ha
      intro x hx y hy
      obtain rfl : r = x := Option.some.inj (hr.symm.trans hx)
      have := hbefore r hr y hy
      omega
    refine List.pairwise_cons.2 ⟨fun b hb => ?_, pairwise_slotsBelow happart n.childList hin h.self.siblings
      (fun c hc => h.child hc) fun c hc => ih c hc (h.child hc)⟩
    obtain ⟨c, hc, k, hb⟩ := Node.mem_slotsBelow hb
    obtain ⟨f, hf, hbf, -⟩ := Node.mem_slotsAt hb
    obtain ⟨r, hr, -, hrq⟩ := (h.child hc).inside (hin c hc) f hf
    intro x hx y hy
    have hx : n.span = some x := hx
    rw [hbf] at hy
    obtain rfl : q = x := Option.some.inj (Eq.trans (Eq.symm hq) hx)
    obtain rfl : r = y := Option.some.inj (hr.symm.trans hy)
    exact (Span.within_iff.1 hrq).1

/-- The parent of a node comes before it and has a span that holds the node's, which is not empty. -/
def UnderParent (t : Slots) (k : Nat) : Prop :=
  ∀ s, t[k]? = some s → ∀ q ∈ s.parent,
    q < k ∧ ∃ a ∈ s.node.span, ∃ b ∈ t.span? q, a.start < a.stop ∧ a.within b = true

theorem underParent_slotsAt (h : n.WellPositioned) (p : Option Nat) (i : Nat)
    (ht : Agrees (· = ·) t i (slotsAt p i n)) (hp : ∀ q ∈ p, q < i ∧ ∃ b ∈ t.span? q, n.Inside b) :
    ∀ k, i ≤ k → k < i + n.size → t.UnderParent k := by
  induction n using Node.induct generalizing p i with
  | step n ih =>
    rw [Node.slotsAt_eq] at ht
    obtain ⟨s, hs, rfl⟩ := ht.head
    obtain ⟨b, hb, hin⟩ := h.self.placed
    refine forall_slotsAt ?_ (forall_slotsBelow n.childList ht.tail fun c hc k hk hik => ?_)
    · intro s' hs' q hq
      obtain rfl := Option.some.inj (hs.symm.trans hs')
      obtain ⟨hlt, b, hb, a, ha, hne, hab⟩ := hp q hq
      exact ⟨hlt, a, ha, b, hb, hne, hab⟩
    · refine ih c hc (h.child hc) (some i) k hk fun q hq => ?_
      obtain rfl := Option.some.inj hq
      exact ⟨by omega, b, by simpa [span?, hs] using hb, hin c hc⟩

/-- In the table of a well-positioned tree the span of a node lies in that of its parent. -/
theorem parent_of_wellPositioned (h : n.WellPositioned) (k : Nat) : n.slots.UnderParent k := by
  intro s hs
  have hk : k < n.size := by simpa using (Array.getElem?_eq_some_iff.1 hs).1
  exact underParent_slotsAt h none 0 (agrees_slots n) (by simp) k (by omega) (by omega) s hs

theorem rel_of_pairwise_slots {R : Slot → Slot → Prop} (h : (slotsAt none 0 n).Pairwise R) {i j : Nat} {s s' : Slot}
    (hi : n.slots[i]? = some s) (hj : n.slots[j]? = some s') (hij : i < j) : R s s' := by
  have hi : (slotsAt none 0 n)[i]? = some s := by simpa [Node.slots_eq] using hi
  have hj : (slotsAt none 0 n)[j]? = some s' := by simpa [Node.slots_eq] using hj
  obtain ⟨hi', rfl⟩ := List.getElem?_eq_some_iff.1 hi
  obtain ⟨hj', rfl⟩ := List.getElem?_eq_some_iff.1 hj
  exact List.pairwise_iff_getElem.1 h i j hi' hj' hij

/-- In the table of a well-positioned tree all that comes after a value starts after it. -/
theorem start_of_wellPositioned (h : n.WellPositioned) {i j : Nat} {s s' : Slot} (hi : n.slots[i]? = some s)
    (hj : n.slots[j]? = some s') (hij : i < j) (hv : s.node.value.isSome = true) : s.node.Before s'.node :=
  rel_of_pairwise_slots (pairwise_slotsAt h none 0) hi hj hij hv

/-- In the table of a well-positioned tree nothing starts before what comes earlier. -/
theorem start_le_of_wellPositioned (h : n.WellPositioned) {i j : Nat} {s s' : Slot} (hi : n.slots[i]? = some s)
    (hj : n.slots[j]? = some s') (hij : i < j) : StartsLater s s' :=
  rel_of_pairwise_slots (pairwise_startsLater h none 0) hi hj hij

theorem span_of_wellPositioned (h : n.WellPositioned) {k : Nat} {s : Slot} (hs : n.slots[k]? = some s) :
    ∃ p, s.node.span = some p := by
  have hs : (slotsAt none 0 n)[k]? = some s := by simpa [Node.slots_eq] using hs
  obtain ⟨e, he, hse, -⟩ := Node.mem_slotsAt (List.mem_of_getElem? hs)
  obtain ⟨p, hp, -⟩ := (h e he).placed
  exact ⟨p, by rw [hse]; exact hp⟩

/-- All nodes but the root lie inside of the root. -/
theorem inside_of_wellPositioned (h : n.WellPositioned) {k : Nat} {s : Slot} (hs : n.slots[k]? = some s)
    (hk : 0 < k) : ∃ q ∈ n.span, s.node.Inside q := by
  have hs : (slotsAt none 0 n)[k]? = some s := by simpa [Node.slots_eq] using hs
  obtain ⟨q, hq, hin⟩ := h.self.placed
  rw [Node.slotsAt_eq, List.getElem?_cons, if_neg (by omega)] at hs
  obtain ⟨c, hc, i, hs⟩ := Node.mem_slotsBelow (List.mem_of_getElem? hs)
  obtain ⟨e, he, hse, -⟩ := Node.mem_slotsAt hs
  exact ⟨q, hq, by rw [hse]; exact (h.child hc).inside (hin c hc) e he⟩

/-- Only the root's span may be empty. -/
theorem nonempty_of_wellPositioned (h : n.WellPositioned) {k : Nat} {s : Slot} (hs : n.slots[k]? = some s)
    (hk : 0 < k) : ∃ p ∈ s.node.span, p.start < p.stop :=
  let ⟨_, _, p, hp, hne, _⟩ := inside_of_wellPositioned h hs hk
  ⟨p, hp, hne⟩

/-- A value before the last place is not the root's. -/
theorem pos_of_value (h : n.WellPositioned) {i j : Nat} {s : Slot} (hs : n.slots[i]? = some s)
    (hv : s.node.value.isSome = true) (hij : i < j) (hj : j < n.size) : 0 < i := by
  rcases Nat.eq_zero_or_pos i with rfl | hi
  · have hs : (slotsAt none 0 n)[0]? = some s := by simpa [Node.slots_eq] using hs
    rw [Node.slotsAt_eq] at hs
    obtain rfl := Option.some.inj hs
    rw [Node.size_eq, h.self.childless hv] at hj
    simp [sizes] at hj
    omega
  · exact hi

end Slots
end RichDoc
