import RichDoc.Proofs.Html.TreeWide

/-!
# Nodes without a span

Joining tags looks at spans only: a node without one is no fragment, adds nothing to a literal and is not removed. It
can still be lost, for what stands below a removed node goes with it, and that is the only way (`unplaced_of_reconcile`).

The loss is told by `Cut`: one tree is what is left of another when some subtrees are cut off, each with a span at its
top. Every step of the joining keeps a slot's place in the table, and keeps the slot whole if its node has no span
(`Follows`), so the tree assembled in the end is such a rest. That nothing of these nodes is read is said by
exchanging what they hold (`Node.relabel`): every step commutes with it.
-/

namespace RichDoc

namespace Node
variable {n m : Node} {ns ms lost : List Node}

/-- The node without its children. -/
def alone (n : Node) : Node := { n with children := none }

/-- The nodes of a tree that have no span, each without its children, in document order. -/
def unplaced (n : Node) : List Node := (n.nodes.filter (·.span.isNone)).map alone

theorem unplaced_eq (n : Node) :
    n.unplaced = (if n.span = none then [n.alone] else []) ++ n.childList.flatMap unplaced := by
  have hbelow : (n.childList.flatMap nodes).filter (·.span.isNone) =
      n.childList.flatMap fun c => c.nodes.filter (·.span.isNone) := List.filter_flatMap
  rw [unplaced, nodes_eq, List.filter_cons, hbelow]
  by_cases h : n.span = none
  · simp only [h, Option.isNone_none, if_true, List.map_cons, List.map_flatMap]
    rfl
  · simp only [h, Option.isNone_iff_eq_none, if_false, List.map_flatMap]
    rfl

mutual
/-- `m` is what is left of `n` when the subtrees `lost` are cut off. They have spans, and what else is not as it was
has one too. -/
inductive Cut : Node → Node → List Node → Prop where
  | node {n m : Node} {lost : List Node} (unplaced : n.span = none → m.alone = n.alone)
    (placed : n.span.isSome = true → m.span.isSome = true) (below : CutBelow n.childList m.childList lost) :
    Cut n m lost

/-- What is left of a list of trees. -/
inductive CutBelow : List Node → List Node → List Node → Prop where
  | nil : CutBelow [] [] []
  | keep {n m : Node} {ns ms lost lost' : List Node} (h : Cut n m lost) (hr : CutBelow ns ms lost') :
    CutBelow (n :: ns) (m :: ms) (lost ++ lost')
  | drop {n : Node} {ns ms lost : List Node} (h : n.span.isSome = true) (hr : CutBelow ns ms lost) :
    CutBelow (n :: ns) ms (n :: lost)
end

mutual
/-- The nodes without a span that are left are in order, and what is cut off holds as many as are not. -/
theorem Cut.unplaced_sublist {n m : Node} {lost : List Node} : Cut n m lost → m.unplaced.Sublist n.unplaced ∧
    n.unplaced.length = m.unplaced.length + (lost.flatMap unplaced).length
  | .node hunplaced hplaced hbelow => by
    obtain ⟨hsub, hlen⟩ := hbelow.unplaced_sublist
    rw [unplaced_eq n, unplaced_eq m]
    by_cases hn : n.span = none
    · have halone := hunplaced hn
      have hm : m.span = none := (congrArg Node.span halone).trans hn
      rw [if_pos hn, if_pos hm, halone]
      refine ⟨hsub.append_left _, ?_⟩
      simp only [List.length_append]
      omega
    · have hm : m.span ≠ none := Option.isSome_iff_ne_none.1 (hplaced (Option.isSome_iff_ne_none.2 hn))
      rw [if_neg hn, if_neg hm]
      exact ⟨hsub, hlen⟩

theorem CutBelow.unplaced_sublist {ns ms lost : List Node} : CutBelow ns ms lost →
    (ms.flatMap unplaced).Sublist (ns.flatMap unplaced) ∧
      (ns.flatMap unplaced).length = (ms.flatMap unplaced).length + (lost.flatMap unplaced).length
  | .nil => by simp
  | .keep h hr => by
    obtain ⟨hsub, hlen⟩ := h.unplaced_sublist
    obtain ⟨hsub', hlen'⟩ := hr.unplaced_sublist
    simp only [List.flatMap_cons, List.flatMap_append, List.length_append]
    exact ⟨hsub.append hsub', by omega⟩
  | .drop _ hr => by
    obtain ⟨hsub, hlen⟩ := hr.unplaced_sublist
    simp only [List.flatMap_cons, List.length_append]
    exact ⟨hsub.trans (List.sublist_append_right _ _), by omega⟩
end

mutual
/-- What is cut off are proper subtrees with a span. -/
theorem Cut.mem_nodes {n m : Node} {lost : List Node} : Cut n m lost →
    ∀ l ∈ lost, l.span.isSome = true ∧ l ∈ n.childList.flatMap nodes
  | .node _ _ hbelow => hbelow.mem_nodes

theorem CutBelow.mem_nodes {ns ms lost : List Node} : CutBelow ns ms lost →
    ∀ l ∈ lost, l.span.isSome = true ∧ l ∈ ns.flatMap nodes
  | .nil => by simp
  | .keep (n := n) h hr => by
    intro l hl
    rw [List.flatMap_cons, List.mem_append, nodes_eq]
    rcases List.mem_append.1 hl with hl | hl
    · obtain ⟨hspan, hmem⟩ := h.mem_nodes l hl
      exact ⟨hspan, .inl (List.mem_cons_of_mem _ hmem)⟩
    · obtain ⟨hspan, hmem⟩ := hr.mem_nodes l hl
      exact ⟨hspan, .inr hmem⟩
  | .drop h hr => by
    refine List.forall_mem_cons.2 ⟨⟨h, ?_⟩, fun l hl => ?_⟩
    · exact List.mem_append_left _ (self_mem_nodes _)
    · obtain ⟨hspan, hmem⟩ := hr.mem_nodes l hl
      exact ⟨hspan, List.mem_append_right _ hmem⟩
end

theorem Cut.unplaced_eq_iff (h : Cut n m lost) : m.unplaced = n.unplaced ↔ ∀ l ∈ lost, l.unplaced = [] := by
  obtain ⟨hsub, hlen⟩ := h.unplaced_sublist
  rw [← List.flatMap_eq_nil_iff, ← List.length_eq_zero_iff]
  constructor
  · intro heq
    rw [heq] at hlen
    omega
  · intro hnil
    exact hsub.eq_of_length (by omega)

/-- What has a span stands in order, whatever stands among it without one: it is not empty and lies in the node that
it stands in, behind the siblings before it; and a node with a value has no children. -/
structure OrderlyWherePlaced (n : Node) : Prop where
  inside : ∀ p ∈ n.span, ∀ c ∈ n.childList, c.span.isSome = true → c.Inside p
  siblings : (n.childList.filter (·.span.isSome)).IsChain Before
  childless : n.value.isSome = true → n.childList = []

instance : DecidablePred OrderlyWherePlaced := fun n =>
  decidable_of_iff ((∀ p ∈ n.span, ∀ c ∈ n.childList, c.span.isSome = true → c.Inside p) ∧
      (n.childList.filter (·.span.isSome)).IsChain Before ∧ (n.value.isSome = true → n.childList = []))
    ⟨fun ⟨hi, hs, hc⟩ => ⟨hi, hs, hc⟩, fun h => ⟨h.inside, h.siblings, h.childless⟩⟩

/-! ### Other contents without a span -/

/-- Where the node has no span, its kind, value and data are those that `f` gives. -/
def relabelAlone (f : Node → Node) (n : Node) : Node :=
  if n.span.isNone then { f n.alone with children := n.children, span := none } else n

mutual
/-- The tree with other kinds, values and data in its nodes without a span. -/
def relabel (f : Node → Node) : Node → Node
  | ⟨k, v, cs, p, d⟩ => { relabelAlone f ⟨k, v, none, p, d⟩ with children := relabelBelow? f cs }

/-- `relabel` on the children, which may be absent. -/
def relabelBelow? (f : Node → Node) : Option (List Node) → Option (List Node)
  | none => none
  | some cs => some (relabelBelow f cs)

/-- `relabel` on a list of trees. -/
def relabelBelow (f : Node → Node) : List Node → List Node
  | [] => []
  | n :: r => relabel f n :: relabelBelow f r
end

variable {f : Node → Node}

@[simp] theorem span_relabelAlone (f : Node → Node) (n : Node) : (relabelAlone f n).span = n.span := by
  unfold relabelAlone
  split
  · next h => exact (Option.isNone_iff_eq_none.1 h).symm
  · rfl

theorem relabelAlone_of_span (h : n.span.isSome = true) : relabelAlone f n = n := by
  simp [relabelAlone, Option.isSome_iff_ne_none.1 h]

theorem relabelAlone_children (f : Node → Node) (n : Node) (cs : Option (List Node)) :
    relabelAlone f { n with children := cs } = { relabelAlone f n with children := cs } := by
  by_cases h : n.span.isNone = true <;> simp [relabelAlone, alone, h]

theorem relabelBelow_eq (f : Node → Node) (cs : List Node) : relabelBelow f cs = cs.map (relabel f) := by
  induction cs with
  | nil => rfl
  | cons n r ih => rw [relabelBelow, ih, List.map_cons]

theorem relabel_eq (f : Node → Node) (n : Node) :
    n.relabel f = { relabelAlone f n with children := n.children.map (List.map (relabel f)) } := by
  obtain ⟨k, v, cs, p, d⟩ := n
  rw [relabel]
  cases cs <;> cases p <;> simp [relabelBelow?, relabelBelow_eq, relabelAlone, alone]

@[simp] theorem childList_relabel (f : Node → Node) (n : Node) :
    (n.relabel f).childList = n.childList.map (relabel f) := by
  cases h : n.children <;> simp [relabel_eq, childList, h]

@[simp] theorem size_relabel (f : Node → Node) (n : Node) : (n.relabel f).size = n.size := by
  induction n using induct with
  | step n ih =>
    have hsizes (cs : List Node) (h : ∀ c ∈ cs, (c.relabel f).size = c.size) :
        sizes (cs.map (relabel f)) = sizes cs := by
      induction cs with
      | nil => rfl
      | cons c r ihr =>
        obtain ⟨hc, hr⟩ := List.forall_mem_cons.1 h
        rw [List.map_cons, sizes, sizes, hc, ihr hr]
    rw [size_eq, size_eq n, childList_relabel, hsizes _ ih]

theorem starts_relabel (f : Node → Node) (k : Nat) (cs : List Node) : starts k (cs.map (relabel f)) = starts k cs := by
  induction cs generalizing k with
  | nil => rfl
  | cons c r ih => rw [List.map_cons, starts, starts, size_relabel, ih]

end Node

/-- The slot with another kind, value and data if its node has no span. -/
def Slot.relabel (f : Node → Node) (s : Slot) : Slot := { s with node := s.node.relabelAlone f }

/-- The table with other kinds, values and data in its nodes without a span. -/
def Slots.relabel (f : Node → Node) (t : Slots) : Slots := t.map (·.relabel f)

namespace Slots
open Node (slotsAt slotsBelow sizes relabelAlone)
variable {f : Node → Node} {t : Slots} {n : Node}

theorem getElem?_relabel (f : Node → Node) (t : Slots) (k : Nat) : (t.relabel f)[k]? = t[k]?.map (·.relabel f) :=
  Array.getElem?_map

theorem span?_relabel (f : Node → Node) (t : Slots) (k : Nat) : (t.relabel f).span? k = t.span? k := by
  rw [span?, span?, getElem?_relabel]
  cases t[k]? <;> simp [Slot.relabel]

theorem isRemoved_relabel (f : Node → Node) (t : Slots) (k : Nat) : (t.relabel f).isRemoved k = t.isRemoved k := by
  refine isRemoved_congr fun l _ => ?_
  rw [getElem?_relabel, Option.map_map]
  rfl

theorem slotsBelow_relabel (i j : Nat) (cs : List Node)
    (ih : ∀ c ∈ cs, ∀ p k, slotsAt p k (c.relabel f) = (slotsAt p k c).map (·.relabel f)) :
    slotsBelow i j (cs.map (Node.relabel f)) = (slotsBelow i j cs).map (·.relabel f) := by
  induction cs generalizing j with
  | nil => rfl
  | cons c r ihr =>
    obtain ⟨hc, hr⟩ := List.forall_mem_cons.1 ih
    rw [List.map_cons, slotsBelow, slotsBelow, hc, ihr _ hr, Node.size_relabel, List.map_append]

theorem slotsAt_relabel (n : Node) (p : Option Nat) (i : Nat) :
    slotsAt p i (n.relabel f) = (slotsAt p i n).map (·.relabel f) := by
  induction n using Node.induct generalizing p i with
  | step n ih =>
    have hisParent : (n.relabel f).children.isSome = n.children.isSome := by
      rw [Node.relabel_eq, Option.isSome_map]
    rw [Node.slotsAt_eq, Node.slotsAt_eq p i n, Node.childList_relabel, slotsBelow_relabel _ _ _ ih, List.map_cons,
      Node.starts_relabel, hisParent, Node.relabel_eq f n, Slot.relabel, Node.relabelAlone_children]

theorem assemble_of_none {i : Nat} (h : t[i]? = none) (n : Node) : assemble t i n = none := by
  obtain ⟨k, v, cs, p, d⟩ := n
  simp [assemble, h]

theorem assembleBelow_relabel (i : Nat) (cs : List Node)
    (ih : ∀ c ∈ cs, ∀ k, assemble (t.relabel f) k (c.relabel f) = (assemble t k c).map (Node.relabel f)) :
    assembleBelow (t.relabel f) i (cs.map (Node.relabel f)) = (assembleBelow t i cs).map (Node.relabel f) := by
  induction cs generalizing i with
  | nil => rfl
  | cons c r ihr =>
    obtain ⟨hc, hr⟩ := List.forall_mem_cons.1 ih
    rw [List.map_cons, assembleBelow, assembleBelow, hc, ihr _ hr, Node.size_relabel, List.map_append]
    cases assemble t i c <;> rfl

theorem assemble_relabel (n : Node) (i : Nat) :
    assemble (t.relabel f) i (n.relabel f) = (assemble t i n).map (Node.relabel f) := by
  induction n using Node.induct generalizing i with
  | step n ih =>
    cases hs : t[i]? with
    | none =>
      have hs' : (t.relabel f)[i]? = none := by rw [getElem?_relabel, hs, Option.map_none]
      rw [assemble_of_none hs, assemble_of_none hs', Option.map_none]
    | some s =>
      have hs' : (t.relabel f)[i]? = some (s.relabel f) := by rw [getElem?_relabel, hs, Option.map_some]
      have hbelow : (n.relabel f).children.map (assembleBelow (t.relabel f) (i + 1)) =
          (n.children.map (assembleBelow t (i + 1))).map (List.map (Node.relabel f)) := by
        cases hn : n.children with
        | none => simp [Node.relabel_eq, hn]
        | some cs =>
          have hcs : n.childList = cs := by simp [Node.childList, hn]
          simp [Node.relabel_eq, hn, assembleBelow_relabel (i + 1) cs (hcs ▸ ih)]
      rw [assemble_eq hs, assemble_eq hs', hbelow]
      cases hr : s.removed with
      | true => simp [Slot.relabel, hr]
      | false => simp [Slot.relabel, hr, Node.relabel_eq, Node.relabelAlone_children]

end Slots

namespace Html
open Slots (Agrees SameShape assemble assembleBelow)
open Node (slotsAt slotsBelow Cut CutBelow)
variable {t : Slots} {s : Slot} {i j k : Nat} {opening closing : Span} {o : Options} {n m : Node}

/-- What becomes of a slot: it keeps its place in the tree, and all that it holds if its node has no span. -/
structure Follows (u s : Slot) : Prop where
  shape : SameShape u s
  unplaced : s.node.span = none → u = s
  placed : s.node.span.isSome = true → u.node.span.isSome = true

theorem Follows.refl (h : s.node.children = none) : Follows s s := ⟨⟨rfl, rfl, rfl, h⟩, fun _ => rfl, fun h => h⟩

theorem Follows.trans {a b c : Slot} (h : Follows a b) (h' : Follows b c) : Follows a c where
  shape := ⟨h.shape.parent.trans h'.shape.parent, h.shape.children.trans h'.shape.children,
    h.shape.isParent.trans h'.shape.isParent, h.shape.bare⟩
  unplaced hc := by
    obtain rfl := h'.unplaced hc
    exact h.unplaced hc
  placed hc := h.placed (h'.placed hc)

theorem follows_joined (hi : t.span? i = some opening) (hs : t[k]? = some s) (hc : s.node.children = none) :
    Follows (joined t opening closing i j k s) s := by
  have hmerged := mergedSlot_joined t opening closing i j k s
  refine ⟨⟨hmerged.parent, hmerged.children, hmerged.isParent, hmerged.bare hc⟩, fun hnone => ?_, fun hsome => ?_⟩
  · have hki : k ≠ i := by
      rintro rfl
      simp [Slots.span?, hs, hnone] at hi
    obtain ⟨⟨kind, value, cs, span, data⟩, parent, places, isParent, removed⟩ := s
    obtain rfl : cs = none := hc
    obtain rfl : span = none := hnone
    simp [joined, hki]
  · simp only [joined]
    split_ifs
    · rfl
    · simpa using hsome
    · exact hsome

theorem follows_merge (hs : t[k]? = some s) (hc : s.node.children = none) :
    ∃ s', (merge t i j)[k]? = some s' ∧ Follows s' s := by
  cases hi : t.span? i with
  | none => exact ⟨s, by simpa [merge, hi] using hs, .refl hc⟩
  | some opening =>
    cases hj : t.span? j with
    | none => exact ⟨s, by simpa [merge, hi, hj] using hs, .refl hc⟩
    | some closing => exact ⟨_, by rw [getElem?_merge_eq hi hj, hs, Option.map_some], follows_joined hi hs hc⟩

theorem agrees_merge {l : List Slot} (h : Agrees Follows t 0 l) : Agrees Follows (merge t i j) 0 l := by
  intro k s hs
  obtain ⟨u, hu, hus⟩ := h k s hs
  obtain ⟨u', hu', hu'u⟩ := follows_merge hu hus.shape.bare
  exact ⟨u', hu', hu'u.trans hus⟩

theorem agrees_pairFrom {fs : Array (Nat × Fragment)} {cl : Array (Option Nat)} {l : List Slot}
    (h : Agrees Follows t 0 l) : Agrees Follows (pairFrom o fs cl t k) 0 l := by
  fun_induction pairFrom o fs cl t k with
  | case1 => exact h
  | case2 _ _ _ _ _ _ ih => exact ih h
  | case3 _ _ _ _ _ _ _ ih => exact ih (agrees_merge h)

theorem isRemoved_merge_zero : (merge t i j).isRemoved 0 = t.isRemoved 0 := by
  cases hi : t.span? i with
  | none => simp [merge, hi]
  | some opening =>
    cases hj : t.span? j with
    | none => simp [merge, hi, hj]
    | some closing =>
      refine Slots.isRemoved_congr fun k hk => ?_
      obtain rfl := Nat.le_zero.1 hk
      rw [getElem?_merge_eq hi hj, Option.map_map]
      simp [joined, Function.comp_def]

theorem isRemoved_pairFrom_zero {fs : Array (Nat × Fragment)} {cl : Array (Option Nat)} :
    (pairFrom o fs cl t k).isRemoved 0 = t.isRemoved 0 := by
  fun_induction pairFrom o fs cl t k with
  | case1 => rfl
  | case2 _ _ _ _ _ _ ih => exact ih
  | case3 _ _ _ _ _ _ _ ih => exact ih.trans isRemoved_merge_zero

/-! ### What is left of the tree -/

theorem cut_assembleBelow {p : Nat} (cs : List Node) (h : Agrees Follows t j (slotsBelow p j cs))
    (ih : ∀ c ∈ cs, ∀ q k m, Agrees Follows t k (slotsAt q k c) → assemble t k c = some m → ∃ lost, Cut c m lost) :
    ∃ lost, CutBelow cs (assembleBelow t j cs) lost := by
  induction cs generalizing j with
  | nil => exact ⟨[], .nil⟩
  | cons c r ihr =>
    have hr := h.later
    obtain ⟨ihc, ih⟩ := List.forall_mem_cons.1 ih
    obtain ⟨lost, hlost⟩ := ihr hr ih
    rw [assembleBelow]
    cases ha : assemble t j c with
    | some m =>
      obtain ⟨lost', hlost'⟩ := ihc _ _ m h.left ha
      exact ⟨_, .keep hlost' hlost⟩
    | none =>
      refine ⟨c :: lost, .drop ?_ hlost⟩
      -- a slot whose node has no span is as it was, and so is not removed
      obtain ⟨s, hs, hfollows⟩ := (Node.slotsAt_eq (some p) j c ▸ h.left).head
      by_contra hspan
      have hsame := hfollows.unplaced (by simpa using hspan)
      rw [Slots.assemble_eq hs, hsame] at ha
      cases ha

theorem cut_of_assemble {p : Option Nat} (h : Agrees Follows t k (slotsAt p k n)) (hm : assemble t k n = some m) :
    ∃ lost, Cut n m lost := by
  induction n using Node.induct generalizing k p m with
  | step n ih =>
    rw [Node.slotsAt_eq] at h
    obtain ⟨s, hs, hfollows⟩ := h.head
    obtain ⟨lost, hlost⟩ := cut_assembleBelow n.childList h.tail fun c hc q k m hk ha => ih c hc hk ha
    obtain ⟨s', hs', -, rfl⟩ := Slots.assemble_eq_some.1 hm
    obtain rfl := Option.some.inj (hs.symm.trans hs')
    refine ⟨lost, .node (fun hn => ?_) (fun hn => ?_) ?_⟩
    · rw [hfollows.unplaced hn]
      rfl
    · exact hfollows.placed hn
    · cases hcs : n.children <;> simpa [Node.childList, hcs, assembleBelow] using hlost

theorem agrees_slots (n : Node) : Agrees Follows n.slots 0 (slotsAt none 0 n) :=
  (Slots.agrees_slots n).mono fun u s hs hus => by
    obtain ⟨e, -, he, -⟩ := Node.mem_slotsAt hs
    rw [hus]
    exact .refl (by rw [he])

theorem assemble_pairFrom (n : Node) (fs : Array (Nat × Fragment)) (cl : Array (Option Nat)) :
    assemble (pairFrom o fs cl n.slots k) 0 n = some (pairFrom o fs cl n.slots k).toNode := by
  have hagrees : Agrees Follows (pairFrom o fs cl n.slots k) 0 (slotsAt none 0 n) := agrees_pairFrom (agrees_slots n)
  refine Slots.toNode_eq_assemble (hagrees.mono fun _ _ _ h => h.shape) ?_
  rw [isRemoved_pairFrom_zero, Slots.isRemoved_slots]

/-- What joining the tags of a tree leaves is what is left of it when subtrees are cut off. -/
theorem cut_of_reconcile (h : reconcile o n = .ok m) : ∃ lost, Cut n m lost := by
  simp only [reconcile] at h
  split at h
  · cases h
  · next fs hfs =>
    cases h
    exact cut_of_assemble (agrees_pairFrom (agrees_slots n)) (assemble_pairFrom n _ _)

/-! ### What has no span is not read -/

section Relabel
variable {f : Node → Node}

theorem fragmentOf_relabelAlone (f : Node → Node) (n : Node) : fragmentOf (n.relabelAlone f) = fragmentOf n := by
  have hnone (n : Node) (h : n.span = none) : fragmentOf n = .ok none := by
    unfold fragmentOf
    split
    · next hspan _ => simp [h] at hspan
    · rfl
  cases h : n.span with
  | none => rw [hnone n h, hnone _ (by rw [Node.span_relabelAlone, h])]
  | some p => rw [Node.relabelAlone_of_span (by simp [h])]

theorem collect_relabel (f : Node → Node) (i : Nat) (l : List Slot) : collect i (l.map (·.relabel f)) = collect i l := by
  induction l generalizing i with
  | nil => rfl
  | cons s r ih => rw [List.map_cons, collect, collect, ih, Slot.relabel, fragmentOf_relabelAlone]

theorem literalText_relabel (f : Node → Node) (t : Slots) (range : Span) (i j : Nat) :
    literalText (t.relabel f) range i j = literalText t range i j := by
  unfold literalText
  congr 1
  refine List.filterMap_congr fun k _ => ?_
  rw [Slots.isRemoved_relabel, Slots.getElem?_relabel]
  cases t[k]? with
  | none => rfl
  | some s =>
    obtain ⟨⟨kind, value, cs, span, data⟩, parent, places, isParent, removed⟩ := s
    cases span with
    | none => cases value <;> simp [Slot.relabel, Node.relabelAlone]
    | some p => rfl

theorem above_relabel (f : Node → Node) (t : Slots) (i : Nat) : above (t.relabel f) i = above t i :=
  above_congr (fun k => by rw [Slots.getElem?_relabel]; cases t[k]? <;> rfl) i

theorem joined_relabel (hi : k = i → s.node.span.isSome = true) :
    joined (t.relabel f) opening closing i j k (s.relabel f) = (joined t opening closing i j k s).relabel f := by
  obtain ⟨node, parent, places, isParent, removed⟩ := s
  simp only [joined, Slot.relabel, Node.span_relabelAlone, literalText_relabel, above_relabel]
  congr 1
  split_ifs with hki ha
  · rw [Node.relabelAlone_of_span (hi hki), Node.relabelAlone_of_span rfl]
  · cases hspan : node.span <;> simp [Node.relabelAlone, Node.alone, hspan]
  · rfl

theorem merge_relabel (f : Node → Node) (t : Slots) (i j : Nat) :
    merge (t.relabel f) i j = (merge t i j).relabel f := by
  cases hi : t.span? i with
  | none => simp [merge, hi, Slots.span?_relabel]
  | some opening =>
    cases hj : t.span? j with
    | none => simp [merge, hi, hj, Slots.span?_relabel]
    | some closing =>
      refine Array.ext_getElem? fun k => ?_
      rw [getElem?_merge_eq (by rw [Slots.span?_relabel, hi]) (by rw [Slots.span?_relabel, hj]),
        Slots.getElem?_relabel, Slots.getElem?_relabel, getElem?_merge_eq hi hj]
      cases hs : t[k]? with
      | none => rfl
      | some s =>
        refine congrArg some (joined_relabel fun hki => ?_)
        have hspan : s.node.span = some opening := by simpa [Slots.span?, ← hki, hs] using hi
        rw [hspan]
        rfl

theorem opensPair_relabel (f : Node → Node) (t : Slots) (i : Nat) (x : Fragment) :
    opensPair o (t.relabel f) i x = opensPair o t i x := by
  cases x <;> simp [opensPair, Slots.isRemoved_relabel]

theorem pairFrom_relabel (f : Node → Node) {fs : Array (Nat × Fragment)} {cl : Array (Option Nat)} :
    pairFrom o fs cl (t.relabel f) k = (pairFrom o fs cl t k).relabel f := by
  fun_induction pairFrom o fs cl t k with
  | case1 t k hk =>
    rw [pairFrom]
    split
    · rfl
    · next h => simp [hk] at h
  | case2 t k i x hk hc ih =>
    rw [dite_eq_ite] at hc
    rw [← ih, pairFrom]
    split
    · next h => simp [hk] at h
    · next h =>
      cases hk.symm.trans h
      rw [opensPair_relabel, hc]
  | case3 t k i x hk c hc ih =>
    rw [dite_eq_ite] at hc
    rw [← ih, ← merge_relabel, pairFrom]
    split
    · next h => simp [hk] at h
    · next h =>
      cases hk.symm.trans h
      rw [opensPair_relabel, hc]

theorem slots_relabel (f : Node → Node) (n : Node) : (n.relabel f).slots = n.slots.relabel f := by
  simp [Node.slots_eq, Slots.relabel, Slots.slotsAt_relabel]

/-- What joining does does not hang on the kinds, values and data of the nodes without a span. -/
theorem reconcile_relabel (f : Node → Node) (h : reconcile o n = .ok m) :
    reconcile o (n.relabel f) = .ok (m.relabel f) := by
  have hcollect : collect 0 (n.relabel f).slots.toList = collect 0 n.slots.toList := by
    rw [slots_relabel, Slots.relabel, Array.toList_map, collect_relabel]
  simp only [reconcile] at h ⊢
  rw [hcollect]
  split at h
  · cases h
  · next fs hfs =>
    cases h
    have hassemble := assemble_pairFrom (o := o) (k := 0) (n.relabel f) fs.toArray (closings (fs.map Prod.snd)).toArray
    rw [slots_relabel, pairFrom_relabel, Slots.assemble_relabel, assemble_pairFrom, Option.map_some] at hassemble
    rw [slots_relabel, pairFrom_relabel, ← Option.some.inj hassemble]

end Relabel

/-- What joining leaves of a tree are the nodes without a span, as they were and in order, but for those in the
subtrees that it cuts off: all of them if no node with a span, other than the root, has one below it. And it reads
nothing of them: with other kinds, values and data in these nodes it leaves the same tree with these in it. -/
theorem unplaced_of_reconcile (h : reconcile o n = .ok m) :
    (∃ lost, Cut n m lost ∧ m.unplaced.Sublist n.unplaced ∧
      (m.unplaced = n.unplaced ↔ ∀ l ∈ lost, l.unplaced = [])) ∧
    ((∀ e ∈ n.childList.flatMap Node.nodes, e.span.isSome = true → e.unplaced = []) → m.unplaced = n.unplaced) ∧
    ∀ f, reconcile o (n.relabel f) = .ok (m.relabel f) := by
  obtain ⟨lost, hcut⟩ := cut_of_reconcile h
  refine ⟨⟨lost, hcut, hcut.unplaced_sublist.1, hcut.unplaced_eq_iff⟩, fun hall => ?_, fun f => reconcile_relabel f h⟩
  refine hcut.unplaced_eq_iff.2 fun l hl => ?_
  obtain ⟨hspan, hmem⟩ := hcut.mem_nodes l hl
  exact hall l hmem hspan

/-- Tags around an emphasis; the text in it has no span, nor has the text after it. -/
def aside : Node :=
  (Node.parent .root [(Node.parent .paragraph [
    (Node.literal .html "<b>").placed 0 3,
    (Node.parent .emphasis [.literal .text "x"]).placed 3 4,
    .literal .text "y",
    (Node.literal .html "</b>").placed 4 8]).placed 0 8]).placed 0 8

/-- The same with the tags joined: the emphasis goes with the text in it, the text after it stays. -/
def joinedAside : Node :=
  (Node.parent .root [(Node.parent .paragraph [
    (Node.literal .html "<b></b>").placed 0 8, .literal .text "y"]).placed 0 8]).placed 0 8

/-- Tags around a text without a span, straight under the root. -/
def loose : Node :=
  (Node.parent .root [
    (Node.literal .html "<b>").placed 0 3, .literal .text "x", (Node.literal .html "</b>").placed 3 7]).placed 0 7

/-- The same with the tags joined. -/
def joinedLoose : Node :=
  (Node.parent .root [(Node.literal .html "<b></b>").placed 0 7, .literal .text "x"]).placed 0 7

theorem unplaced_joinedAside :
    reconcile {} aside = .ok joinedAside ∧
      (∃ lost, Cut aside joinedAside lost ∧ joinedAside.unplaced.Sublist aside.unplaced ∧
        (joinedAside.unplaced = aside.unplaced ↔ ∀ l ∈ lost, l.unplaced = [])) ∧
      reconcile {} loose = .ok joinedLoose ∧ joinedLoose.unplaced = loose.unplaced ∧
      ∀ f, reconcile {} (aside.relabel f) = .ok (joinedAside.relabel f) := by
  have h : reconcile {} aside = .ok joinedAside := by decide +kernel
  have h' : reconcile {} loose = .ok joinedLoose := by decide +kernel
  exact ⟨h, (unplaced_of_reconcile h).1, h', (unplaced_of_reconcile h').2.1 (by decide), (unplaced_of_reconcile h).2.2⟩

/-- A node without a span does not always stay, even if all that has spans stands in order. -/
theorem not_forall_unplaced_eq : ¬ ∀ (o : Options) (n m : Node), (∀ e ∈ n.nodes, e.OrderlyWherePlaced) →
    reconcile o n = .ok m → m.unplaced = n.unplaced := by
  intro h
  have hjoin : reconcile {} aside = .ok joinedAside := by decide +kernel
  exact absurd (h {} aside joinedAside (by decide) hjoin) (by decide)

end Html
end RichDoc
