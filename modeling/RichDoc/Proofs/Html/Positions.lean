import Mathlib.Data.List.Forall2
import RichDoc.Proofs.Html.Joining

/-!
# Positions once all pairs are joined

`pairs` lists the pairs of tags that are joined, and joining a well-positioned tree is joining these, one after the
other (`pairAll_induct`). A pair may reach beyond the parent of its opening tag, so that siblings may overlap once it is
joined. The rest stays in order (`Sound`): the tag and all that it stands under get wider together, so that every node
stays inside its parent, and the tag itself has no children; the root holds both tags already; no node moves its start.
`reconcile_positioned` says so of the tree that comes out.
-/

namespace RichDoc

/-- A node of a tree is its root or a child of another. -/
theorem Node.eq_or_child_of_mem_nodes {n e : Node} (he : e ∈ n.nodes) : e = n ∨ ∃ d ∈ n.nodes, e ∈ d.childList := by
  induction n using Node.induct with
  | step n ih =>
    rcases mem_nodes.1 he with rfl | ⟨c, hc, he⟩
    · exact .inl rfl
    · refine .inr ?_
      rcases ih c hc he with rfl | ⟨d, hd, he⟩
      · exact ⟨n, n.self_mem_nodes, hc⟩
      · exact ⟨d, mem_nodes.2 (.inr ⟨c, hc, hd⟩), he⟩

namespace Slots
open Node (slotsAt)
variable {n m : Node} {t : Slots} {k : Nat}

/-- If each node of a table lies inside its parent, then so it is in the tree of the table. -/
theorem inside_of_assemble (h : ∀ k, t.UnderParent k) {p : Option Nat} (ht : t.Shaped k (slotsAt p k n))
    (ha : assemble t k n = some m) : ∀ e ∈ m.nodes, ∀ c ∈ e.childList, ∃ q ∈ e.span, c.Inside q := by
  induction n using Node.induct generalizing p k m with
  | step n ih =>
    obtain ⟨a, hat, -, hm⟩ := assemble_eq_some.1 ha
    have hchild : ∀ c ∈ m.childList, ∃ d ∈ n.childList, ∃ l, t.Shaped l (slotsAt (some k) l d) ∧
        assemble t l d = some c := fun c hc =>
      exists_of_mem_assembleBelow (Node.slotsAt_eq p k n ▸ ht).tail (childList_of_assemble ha ▸ hc)
    refine Node.forall_nodes.2 ⟨fun c hc => ?_, fun c hc => ?_⟩
    · obtain ⟨d, -, l, hshape, hc⟩ := hchild c hc
      obtain ⟨x, hx, -, hc⟩ := assemble_eq_some.1 hc
      obtain ⟨x', hx', hparent, -⟩ := (Node.slotsAt_eq (some k) l d ▸ hshape).head
      obtain rfl := Option.some.inj (hx.symm.trans hx')
      obtain ⟨-, y, hy, q, hq, hne, hin⟩ := h l x hx k hparent
      have hspan : t.span? k = m.span := by rw [span?, hat, hm]; rfl
      exact ⟨q, hspan ▸ hq, y, by rw [hc]; exact hy, hne, hin⟩
    · obtain ⟨d, hd, l, hshape, hc⟩ := hchild c hc
      exact ih d hd hshape hc

theorem underParent_iff : t.UnderParent k ↔ ∀ q ∈ t[k]?.bind (·.parent),
    q < k ∧ ∃ a ∈ t.span? k, ∃ b ∈ t.span? q, a.start < a.stop ∧ a.within b = true := by
  unfold UnderParent span?
  cases t[k]? <;> simp

end Slots

/-- What is left of numbered members, in order, is related to some of them. -/
theorem sublistForall₂_filterMap_range' {α β : Type} {R : β → α × Nat → Prop} {f : Nat → Option β} {l : List α}
    {i : Nat} (h : ∀ k x, l[k]? = some x → ∀ y ∈ f (i + k), R y (x, i + k)) :
    List.SublistForall₂ R ((List.range' i l.length).filterMap f) (l.zipIdx i) := by
  induction l generalizing i with
  | nil => exact .nil
  | cons x r ih =>
    have hrest := ih (i := i + 1) fun k y hk => by simpa [Nat.add_assoc, Nat.add_comm 1] using h (k + 1) y hk
    rw [List.length_cons, List.range'_succ, List.zipIdx_cons, List.filterMap_cons]
    cases hf : f i with
    | none => exact .cons_right hrest
    | some y => exact .cons (h 0 x rfl y hf) hrest

theorem pairwise_of_sublistForall₂ {α β : Type} {R : α → β → Prop} {S : α → α → Prop} {T : β → β → Prop} {as : List α}
    {bs : List β} (h : List.SublistForall₂ R as bs) (hbs : bs.Pairwise T)
    (himp : ∀ a a' b b', R a b → R a' b' → T b b' → S a a') : as.Pairwise S := by
  obtain ⟨l, hl, hsub⟩ := List.sublistForall₂_iff.1 h
  have hlen := hl.length_eq
  rw [List.pairwise_iff_getElem]
  intro i j hi hj hij
  exact himp _ _ _ _ (hl.get hi (hlen ▸ hi)) (hl.get hj (hlen ▸ hj))
    (List.pairwise_iff_getElem.1 (hbs.sublist hsub) i j (hlen ▸ hi) (hlen ▸ hj) hij)

namespace Html
open Node (slotsAt)

variable {n m : Node} {t : Slots} {o : Options} {fs gs : List (Nat × Fragment)} {ps : List (Nat × Nat)}
  {b i j k q : Nat} {opening closing : Span} {s s' : Slot}

/-! ### The pairs of a tree -/

/-- The places of the tags that are joined: each opening tag that takes part, and the nearest later closing tag of its
name, behind which the search goes on. -/
def pairs (o : Options) : List (Nat × Fragment) → List (Nat × Nat)
  | [] => []
  | (i, .opening name) :: r =>
    if o.skipVoid && isVoidElement name then pairs o r
    else match _h : r.dropWhile (fun x => !x.2.isClosing name) with
      | [] => pairs o r
      | (j, _) :: r' => (i, j) :: pairs o r'
  | _ :: r => pairs o r
termination_by fs => fs.length
decreasing_by
  · simp
  · simp
  · have hle := (List.dropWhile_suffix (l := r) fun x => !x.2.isClosing name).length_le
    rw [_h, List.length_cons] at hle
    rw [List.length_cons]
    omega
  · simp

/-- Joining the pairs among the fragments joins those of the list, and what each of these keeps is kept. -/
theorem pairAll_induct {P : Slots → Prop} (hn : n.WellPositioned) (hfs : collect 0 n.slots.toList = .ok fs)
    (join : ∀ {t i j opening closing s s'}, (i, j) ∈ pairs o fs → Pair n t i j opening closing s s' →
      s.node.kind = .html → P t → P (merge t i j))
    (h : InOrder n t b) (ha : Aligned n t) (hP : P t) (hgs : gs <:+ fs) (hps : ∀ p ∈ pairs o gs, p ∈ pairs o fs)
    (hb : ∀ x ∈ gs, b ≤ x.1) :
    pairAll o t gs = (pairs o gs).foldl (fun u p => merge u p.1 p.2) t ∧
      ∃ b, InOrder n (pairAll o t gs) b ∧ Aligned n (pairAll o t gs) ∧ P (pairAll o t gs) := by
  fun_induction pairs o gs generalizing t b with
  | case1 => exact ⟨by rw [pairAll]; rfl, b, by rw [pairAll]; exact ⟨h, ha, hP⟩⟩
  | case2 i name r hvoid ih =>
    rw [pairAll_of_not_opens (by simp [opensPair, hvoid])]
    exact ih h ha hP ((List.suffix_cons _ r).trans hgs) hps fun x hx => hb x (List.mem_cons_of_mem _ hx)
  | case3 i name r hvoid hnil ih =>
    rw [pairAll_opening, hnil, ite_self]
    exact ih h ha hP ((List.suffix_cons _ r).trans hgs) hps fun x hx => hb x (List.mem_cons_of_mem _ hx)
  | case4 i name r hvoid j f r' hcons ih =>
    -- the opening tag is not removed, since nothing is from there on
    have hlive : t.isRemoved i = false := h.live i (hb (i, .opening name) (List.mem_cons_self ..))
    have hopens : opensPair o t i (.opening name) = true := by simp [opensPair, hlive, hvoid]
    have hrest : (j, f) :: r' <:+ r := hcons ▸ List.dropWhile_suffix ..
    have hmem : (j, f) ∈ r := hrest.mem (List.mem_cons_self ..)
    have hsorted := (pairwise_collect hfs).sublist hgs.sublist
    have hlt : i < j := List.rel_of_pairwise_cons hsorted hmem
    have hfirst : (i, .opening name) ∈ fs := hgs.mem (List.mem_cons_self ..)
    obtain ⟨opening, closing, s, s', hpair⟩ := (h.mono (hb _ (List.mem_cons_self ..))).pair hn hfs hfirst
      (hgs.mem (List.mem_cons_of_mem _ hmem)) hlt
    obtain ⟨hkind, -⟩ := fragmentOf_eq_some (fragmentOf_of_collect hfs hfirst hpair.first)
    have hjoin := join (hps _ (List.mem_cons_self ..)) hpair hkind hP
    have hmerge : merge t i j = joinWhole t i j := hpair.merge_eq_joinWhole ha
    rw [pairAll_opening, if_pos hopens, hcons]
    simp only [← hmerge, List.foldl_cons]
    have hlater : ∀ x ∈ r', j < x.1 := fun x hx =>
      List.rel_of_pairwise_cons (hsorted.of_cons.sublist hrest.sublist) hx
    refine ih hpair.inOrder_merge (hmerge ▸ hpair.aligned_joinWhole ha) hjoin ?_
      (fun p hp => hps p (List.mem_cons_of_mem _ hp)) hlater
    exact (List.suffix_cons _ r').trans (hrest.trans ((List.suffix_cons _ r).trans hgs))
  | case5 x r hx ih =>
    have hopens : opensPair o t x.1 x.2 = false := by
      obtain ⟨i, f⟩ := x
      cases f <;> simp [opensPair]
      exact (hx _ _ rfl).elim
    rw [pairAll_of_not_opens hopens]
    exact ih h ha hP ((List.suffix_cons _ r).trans hgs) hps fun x hx => hb x (List.mem_cons_of_mem _ hx)

/-! ### One pair -/

theorem mem_above_of_parent (hq : q ∈ t[i]?.bind (·.parent)) (hlt : q < i) : q ∈ above t i := by
  rw [above, hq]
  simp [hlt]

/-- What stands above a place has its parents among the rest of what stands there. -/
theorem mem_above_trans (hk : k ∈ above t i) (hq : q ∈ t[k]?.bind (·.parent)) (hlt : q < k) : q ∈ above t i := by
  induction i using Nat.strongRecOn with
  | ind i ih =>
    rw [above] at hk ⊢
    split at hk
    · simp at hk
    · next p hp =>
      split at hk
      · next hpi =>
        rw [if_pos hpi]
        rcases List.mem_cons.1 hk with rfl | hk
        · exact List.mem_cons_of_mem _ (mem_above_of_parent hq hlt)
        · exact List.mem_cons_of_mem _ (ih p hpi hk)
      · simp at hk

namespace Pair

theorem parent_merge (h : Pair n t i j opening closing s s') (k : Nat) :
    (merge t i j)[k]?.bind (·.parent) = t[k]?.bind (·.parent) := by
  rw [getElem?_merge_eq h.at_first h.at_last]
  cases t[k]? <;> rfl

/-- The opening tag and all that it stands under get wider by the same range. -/
theorem span?_merge (h : Pair n t i j opening closing s s') (k : Nat) :
    (merge t i j).span? k =
      if k = i ∨ k ∈ above t i then (t.span? k).map (·.cover ⟨opening.start, closing.stop⟩) else t.span? k := by
  have hspan : (t.span? i).map (·.cover ⟨opening.start, closing.stop⟩) = some ⟨opening.start, closing.stop⟩ := by
    have h₁ := h.opening_stop_le h.last h.lastSpan h.lt
    have h₂ := h.closing_lt
    have hle : opening.stop ≤ closing.stop := by omega
    simp [h.at_first, Span.cover, hle]
  by_cases hki : k = i
  · subst hki
    obtain ⟨a, a', ha, -⟩ := h.slot h.first
    rw [if_pos (.inl rfl), hspan, Slots.span?, getElem?_merge_eq h.at_first h.at_last, ha]
    simp [joined, h.range_eq]
  · rw [Slots.span?, Slots.span?, getElem?_merge_eq h.at_first h.at_last]
    cases t[k]? with
    | none => simp
    | some a => by_cases hab : k ∈ above t i <;> simp [joined, hki, hab, h.range_eq]

/-- A tag has no children. -/
theorem parent_ne_first (h : Pair n t i j opening closing s s') (hk : t.UnderParent k) :
    t[k]?.bind (·.parent) ≠ some i := by
  intro hparent
  obtain ⟨hik, p, hp, q, hq, hne, hin⟩ := Slots.underParent_iff.1 hk i hparent
  obtain ⟨a, ha, hp⟩ := Option.bind_eq_some_iff.1 hp
  obtain rfl := Option.some.inj (h.at_first.symm.trans hq)
  rw [h.inOrder.same k (Nat.le_of_lt hik)] at ha
  have := h.opening_stop_le ha hp hik
  rw [Span.within_iff] at hin
  omega

/-- Joining a pair keeps each node inside its parent. -/
theorem underParent_merge (h : Pair n t i j opening closing s s') (ht : ∀ k, t.UnderParent k) (k : Nat) :
    (merge t i j).UnderParent k := by
  rw [Slots.underParent_iff]
  intro q hq
  rw [h.parent_merge] at hq
  obtain ⟨hlt, x, hx, y, hy, hne, hin⟩ := Slots.underParent_iff.1 (ht k) q hq
  have hqi : q ≠ i := fun heq => h.parent_ne_first (ht k) (heq ▸ hq)
  refine ⟨hlt, ?_⟩
  rw [h.span?_merge, h.span?_merge, hx, hy]
  set range : Span := ⟨opening.start, closing.stop⟩
  by_cases hk : k = i ∨ k ∈ above t i
  · -- both get wider
    have hqab : q ∈ above t i := by
      rcases hk with rfl | hk
      · exact mem_above_of_parent hq hlt
      · exact mem_above_trans hk hq hlt
    rw [if_pos hk, if_pos (.inr hqab)]
    refine ⟨_, rfl, _, rfl, ?_, ?_⟩
    · simp only [Span.cover]
      omega
    · exact Span.cover_within (Span.within_trans hin (Span.within_cover_left y range)) (Span.within_cover_right y range)
  · -- at most the parent does
    rw [if_neg hk]
    by_cases hqab : q ∈ above t i
    · rw [if_pos (.inr hqab)]
      exact ⟨x, rfl, _, rfl, hne, Span.within_trans hin (Span.within_cover_left y range)⟩
    · rw [if_neg (by simp [hqi, hqab])]
      exact ⟨x, rfl, y, rfl, hne, hin⟩

/-- Joining a pair changes nothing at the root, which holds both tags already. -/
theorem getElem?_merge_root (h : Pair n t i j opening closing s s')
    (hroot : t[0]?.map (·.node) = some { n with children := none }) :
    (merge t i j)[0]?.map (·.node) = some { n with children := none } := by
  have hij := h.lt
  have hi := h.pos
  obtain ⟨p, hp, x, hx, -, hfirst⟩ := Slots.inside_of_wellPositioned h.wellPositioned h.first hi
  obtain ⟨p', hp', y, hy, -, hlast⟩ := Slots.inside_of_wellPositioned h.wellPositioned h.last (Nat.lt_trans hi hij)
  obtain rfl := Option.some.inj (h.firstSpan.symm.trans hx)
  obtain rfl := Option.some.inj (h.lastSpan.symm.trans hy)
  have hp : n.span = some p := hp
  obtain rfl : p = p' := Option.some.inj (hp.symm.trans hp')
  obtain ⟨a, ha, hnode⟩ := Option.map_eq_some_iff.1 hroot
  have hcover : p.cover ⟨opening.start, closing.stop⟩ = p := by
    simp only [Span.within_iff] at hfirst hlast
    simp [Span.cover, hfirst, hlast]
  rw [getElem?_merge_eq h.at_first h.at_last, ha, Option.map_some, Option.map_some, joined]
  by_cases hab : 0 ∈ above t i <;> simp [Nat.ne_of_lt hi, hab, hnode, hp, h.range_eq, hcover]

end Pair

/-! ### All pairs -/

/-- What joining keeps of a table: nodes lie inside their parents, the root is what it was, and so are all other nodes
but for their spans and the values of the tags that open one of the pairs. -/
structure Sound (n : Node) (ps : List (Nat × Nat)) (t : Slots) : Prop where
  under : ∀ k, t.UnderParent k
  root : t[0]?.map (·.node) = some { n with children := none }
  node : ∀ (k : Nat) (r : Slot), n.slots[k]? = some r → ∃ a : Slot, t[k]? = some a ∧ a.node.kind = r.node.kind ∧
    a.node.data = r.node.data ∧ (a.node.value = r.node.value ∨ ∃ j, (k, j) ∈ ps)

theorem sound_slots (hn : n.WellPositioned) (ps : List (Nat × Nat)) : Sound n ps n.slots where
  under := Slots.parent_of_wellPositioned hn
  root := by simp [Node.slots_eq, Node.slotsAt_eq]
  node _ r hr := ⟨r, hr, rfl, rfl, .inl rfl⟩

theorem Sound.merge (h : Sound n ps t) (hp : Pair n t i j opening closing s s') (hkind : s.node.kind = .html)
    (hmem : (i, j) ∈ ps) : Sound n ps (merge t i j) where
  under := hp.underParent_merge h.under
  root := hp.getElem?_merge_root h.root
  node k r hr := by
    obtain ⟨a, ha, hk, hd, hv⟩ := h.node k r hr
    refine ⟨_, by rw [getElem?_merge_eq hp.at_first hp.at_last, ha, Option.map_some], ?_⟩
    by_cases hki : k = i
    · subst hki
      obtain rfl := Option.some.inj (hr.symm.trans hp.first)
      exact ⟨by simp [joined, hkind], by simp [joined, hd], .inr ⟨j, hmem⟩⟩
    · by_cases hab : k ∈ above t i <;> simpa [joined, hki, hab] using ⟨hk, hd, hv⟩

/-- The node `e` is what joining pairs makes of the node `x.1` at place `x.2`: it starts where it started, and holds
what it held unless it opens a pair. -/
def StemsFrom (ps : List (Nat × Nat)) (e : Node) (x : Node × Nat) : Prop :=
  e.kind = x.1.kind ∧ e.data = x.1.data ∧ e.span.map Span.start = x.1.span.map Span.start ∧
    (e.value = x.1.value ∨ ∃ j, (x.2, j) ∈ ps)

namespace Sound

theorem stemsFrom (h : Sound n ps t) (ha : Aligned n t) {x e : Node} (hx : n.nodes[k]? = some x)
    (he : t.liveNode? k = some e) : StemsFrom ps e (x, k) := by
  obtain ⟨r, hr, hrx⟩ : ∃ r, n.slots[k]? = some r ∧ r.node = { x with children := none } := by
    simpa [hx] using Node.getElem?_slots n k
  obtain ⟨a, hta, hkind, hdata, hvalue⟩ := h.node k r hr
  obtain ⟨a', hta', hstart, -⟩ := ha k r (by simpa [Node.slots_eq] using hr)
  rw [Nat.zero_add, hta] at hta'
  obtain rfl := Option.some.inj hta'
  obtain rfl : a.node = e := by
    cases hlive : t.isRemoved k <;> simp [Slots.liveNode?, hlive, hta] at he
    exact he
  rw [hrx] at hkind hdata hvalue hstart
  exact ⟨hkind, hdata, hstart, hvalue⟩

theorem nodes_stemsFrom (h : Sound n ps t) (hio : InOrder n t b) (ha : Aligned n t) :
    List.SublistForall₂ (StemsFrom ps) t.toNode.nodes n.nodes.zipIdx := by
  have hlive : List.SublistForall₂ (StemsFrom ps) (t.liveNodes 0 n.size) n.nodes.zipIdx := by
    rw [← Node.length_nodes]
    exact sublistForall₂_filterMap_range' fun k x hx e he => by
      rw [Nat.zero_add] at he ⊢
      exact h.stemsFrom ha hx he
  rw [← Slots.nodes_toNode hio.shaped hio.root, List.sublistForall₂_map_left_iff] at hlive
  exact hlive

theorem inside (h : Sound n ps t) (hio : InOrder n t b) :
    ∀ e ∈ t.toNode.nodes, ∀ c ∈ e.childList, ∃ p ∈ e.span, c.Inside p :=
  Slots.inside_of_assemble h.under hio.shaped (Slots.toNode_eq_assemble hio.shaped hio.root)

/-- The root is kept, and if it has no children, that is all. -/
theorem toNode_root (h : Sound n ps t) (hio : InOrder n t b) :
    { t.toNode with children := none } = { n with children := none } ∧ (n.childList = [] → t.toNode = n) := by
  obtain ⟨a, hta, hnode⟩ := Option.map_eq_some_iff.1 h.root
  obtain ⟨a', hta', -, hm⟩ := Slots.assemble_eq_some.1 (Slots.toNode_eq_assemble hio.shaped hio.root)
  obtain rfl := Option.some.inj (hta.symm.trans hta')
  rw [hm, hnode]
  refine ⟨rfl, fun hnil => ?_⟩
  obtain ⟨k, v, _ | cs, p, d⟩ := n
  · rfl
  · obtain rfl : cs = [] := hnil
    rfl

/-- All spans are in order, unless the root stands alone with its ends reversed. -/
theorem spans (h : Sound n ps t) (hn : n.WellPositioned) (hio : InOrder n t b) :
    ∀ e ∈ t.toNode.nodes, ∃ p ∈ e.span,
      p.start ≤ p.stop ∨ p.stop < p.start ∧ e = n ∧ t.toNode = n ∧ n.childList = [] := by
  intro e he
  rcases Node.eq_or_child_of_mem_nodes he with rfl | ⟨d, hd, he⟩
  · obtain ⟨hroot, halone⟩ := h.toNode_root hio
    obtain ⟨p, hp, hin⟩ := hn.self.placed
    refine ⟨p, (congrArg Node.span hroot).trans hp, ?_⟩
    cases hcs : n.childList with
    | nil => exact (Nat.lt_or_ge p.stop p.start).symm.imp_right fun hlt => ⟨hlt, halone hcs, halone hcs, rfl⟩
    | cons c r =>
      obtain ⟨q, -, hne, hq⟩ := hin c (by simp [hcs])
      rw [Span.within_iff] at hq
      exact .inl (by omega)
  · obtain ⟨-, -, p, hp, hne, -⟩ := h.inside hio d hd e he
    exact ⟨p, hp, .inl (Nat.le_of_lt hne)⟩

end Sound

/-! ### The tree that comes out -/

/-- The second node does not start before the first. -/
def NotBefore (a b : Node) : Prop := ∀ p ∈ a.span, ∀ q ∈ b.span, p.start ≤ q.start

theorem pairwise_notBefore (hn : n.WellPositioned) : n.nodes.Pairwise NotBefore := by
  have hslots : ((slotsAt none 0 n).map (·.node)).Pairwise NotBefore :=
    List.pairwise_map.2 (Slots.pairwise_startsLater hn none 0)
  rw [Node.map_node_slotsAt, List.pairwise_map] at hslots
  exact hslots

theorem StemsFrom.notBefore {e e' : Node} {x x' : Node × Nat} (h : StemsFrom ps e x) (h' : StemsFrom ps e' x')
    (hx : NotBefore x.1 x'.1) : NotBefore e e' := by
  intro p hp q hq
  have hstart := h.2.2.1
  have hstart' := h'.2.2.1
  rw [show e.span = some p from hp, Option.map_some, eq_comm, Option.map_eq_some_iff] at hstart
  rw [show e'.span = some q from hq, Option.map_some, eq_comm, Option.map_eq_some_iff] at hstart'
  obtain ⟨y, hy, hyp⟩ := hstart
  obtain ⟨z, hz, hzq⟩ := hstart'
  have := hx y hy z hz
  omega

/-- Joining the tags of a well-positioned tree joins a list of pairs and leaves each node a span in order, unless it is
a root alone whose ends were reversed. Each node lies inside its parent, no node starts before an earlier one, the root
is kept, and all nodes are nodes of the tree with what they held but for the values of the opening tags of the pairs. -/
theorem reconcile_positioned (hn : n.WellPositioned) (h : reconcile o n = .ok m) :
    ∃ fs, fragments n = .ok fs ∧ m = ((pairs o fs).foldl (fun t p => merge t p.1 p.2) n.slots).toNode ∧
      (∀ e ∈ m.nodes, ∃ p ∈ e.span, (p.start ≤ p.stop ∨ p.stop < p.start ∧ e = n ∧ m = n ∧ n.childList = []) ∧
        ∀ c ∈ e.childList, ∃ q ∈ c.span, q.within p = true) ∧
      m.nodes.Pairwise (fun a b => ∀ p ∈ a.span, ∀ q ∈ b.span, p.start ≤ q.start) ∧
      { m with children := none } = { n with children := none } ∧
      List.SublistForall₂ (fun e x => e.kind = x.1.kind ∧ e.data = x.1.data ∧
        e.span.map Span.start = x.1.span.map Span.start ∧ (e.value = x.1.value ∨ ∃ j, (x.2, j) ∈ pairs o fs))
        m.nodes n.nodes.zipIdx := by
  cases hfs : fragments n with
  | error e =>
    rw [reconcile, collect_slots, hfs] at h
    cases h
  | ok fs =>
    rw [reconcile_of_fragments hn o hfs] at h
    obtain ⟨hpairs, b, hio, ha, hsound⟩ := pairAll_induct (P := Sound n (pairs o fs)) hn ((collect_slots n).trans hfs)
      (fun hmem hpair hkind h => h.merge hpair hkind hmem) (inOrder_slots n) (aligned_slots n) (sound_slots hn _)
      List.suffix_rfl (fun _ => id) fun _ _ => Nat.zero_le _
    obtain rfl : (pairAll o n.slots fs).toNode = m := Except.ok.inj h
    have hnodes := hsound.nodes_stemsFrom hio ha
    refine ⟨fs, rfl, by rw [hpairs], fun e he => ?_, ?_, (hsound.toNode_root hio).1, hnodes⟩
    · obtain ⟨p, hp, hordered⟩ := hsound.spans hn hio e he
      refine ⟨p, hp, hordered, fun c hc => ?_⟩
      obtain ⟨p', hp', q, hq, -, hin⟩ := hsound.inside hio e he c hc
      obtain rfl : p = p' := Option.some.inj (Eq.trans (Eq.symm hp) hp')
      exact ⟨q, hq, hin⟩
    · have hstarts : (n.nodes.zipIdx.map Prod.fst).Pairwise NotBefore := by
        rw [List.zipIdx_map_fst]
        exact pairwise_notBefore hn
      exact pairwise_of_sublistForall₂ hnodes (List.pairwise_map.1 hstarts) fun _ _ _ _ => StemsFrom.notBefore

/-- Widened by the first pair, the first paragraph reaches into the second. -/
theorem positioned_joinedOverlapping :
    overlapping.WellPositioned ∧ reconcile {} overlapping = .ok joinedOverlapping ∧ joinedOverlapping ≠ overlapping ∧
      (∀ e ∈ joinedOverlapping.nodes, ∃ p ∈ e.span, p.start ≤ p.stop ∧
        ∀ c ∈ e.childList, ∃ q ∈ c.span, q.within p = true) ∧
      joinedOverlapping.nodes.Pairwise fun a b => ∀ p ∈ a.span, ∀ q ∈ b.span, p.start ≤ q.start := by
  have hpositioned : overlapping.WellPositioned := by decide
  have h : reconcile {} overlapping = .ok joinedOverlapping := by decide +kernel
  have hne : joinedOverlapping ≠ overlapping := by decide
  obtain ⟨-, -, -, hspans, hstarts, -⟩ := reconcile_positioned hpositioned h
  refine ⟨hpositioned, h, hne, fun e he => ?_, hstarts⟩
  obtain ⟨p, hp, hordered, hin⟩ := hspans e he
  exact ⟨p, hp, hordered.resolve_right fun halone => hne halone.2.2.1, hin⟩

/-- A root alone, with a span that was read with its ends reversed. -/
def reversedRoot : Node := { Node.void .root with span := some ⟨5, 3⟩ }

theorem not_forall_ordered_reconcile : ¬ ∀ (o : Options) (n m : Node), n.WellPositioned → reconcile o n = .ok m →
    ∀ e ∈ m.nodes, ∃ p ∈ e.span, p.start ≤ p.stop := by
  intro h
  have hjoined : reconcile {} reversedRoot = .ok reversedRoot := by decide +kernel
  obtain ⟨p, hp, hle⟩ := h {} reversedRoot reversedRoot (by decide) hjoined _ reversedRoot.self_mem_nodes
  obtain rfl := Option.some.inj hp
  exact absurd hle (by decide)

end Html
end RichDoc
