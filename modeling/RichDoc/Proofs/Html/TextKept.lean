import RichDoc.Proofs.Html.Fragments
import RichDoc.Proofs.Html.Merging
import RichDoc.Proofs.Tree.Positioned

/-!
# Joining tags keeps the text

The opening tag of a pair gets the text of all literals up to the closing tag, and these are removed. The two
are chosen by different tests on spans. `InOrder n t b` says that a table `t` made from a well-positioned
tree `n` has not been touched from place `b` on; a pair that starts there keeps it (`InOrder.merge`), with `b`
behind the closing tag, because

* every literal between the two tags stops before the closing tag does, so it is collected and removed;
* every node after the closing tag, and so every node that it stands under, stops after the closing tag
  does, so none of these is removed.
-/

namespace RichDoc.Html
open Slots (Shaped liveValue liveText)
open Node (slotsAt)

variable {n : Node} {t : Slots} {b i j k : Nat} {o : Options} {s : Slot}

/-- The table holds `n`, with nothing changed from place `b` on and the text of `n`. -/
structure InOrder (n : Node) (t : Slots) (b : Nat) : Prop where
  shaped : t.Shaped 0 (slotsAt none 0 n)
  root : t.isRemoved 0 = false
  same : ∀ k, b ≤ k → t[k]? = n.slots[k]?
  live : ∀ k, b ≤ k → t.isRemoved k = false
  text : t.liveText 0 n.size = n.textContent

theorem inOrder_slots (n : Node) : InOrder n n.slots 0 where
  shaped := Slots.shaped_slots n
  root := Slots.isRemoved_slots n 0
  same _ _ := rfl
  live k _ := Slots.isRemoved_slots n k
  text := by
    rw [← Slots.textContent_toNode (Slots.shaped_slots n) (Slots.isRemoved_slots n 0), Slots.toNode_slots]

/-! ### One pair -/

/-- Two literals of `n` at places `i` and `j`, and a table that is untouched from `i` on. -/
structure Pair (n : Node) (t : Slots) (i j : Nat) (opening closing : Span) (s s' : Slot) : Prop where
  wellPositioned : n.WellPositioned
  inOrder : InOrder n t i
  lt : i < j
  first : n.slots[i]? = some s
  last : n.slots[j]? = some s'
  firstSpan : s.node.span = some opening
  lastSpan : s'.node.span = some closing
  firstValue : s.node.value.isSome = true
  lastValue : s'.node.value.isSome = true

namespace Pair
variable {opening closing p : Span} {s s' r : Slot}

theorem lt_size (h : Pair n t i j opening closing s s') : j < n.size := by
  simpa using (Array.getElem?_eq_some_iff.1 h.last).1

theorem first_lt_size (h : Pair n t i j opening closing s s') : i < n.size := Nat.lt_trans h.lt h.lt_size

theorem exists_slot (h : Pair n t i j opening closing s s') (hk : k ≤ j) : ∃ r, n.slots[k]? = some r := by
  have hlt : k < n.slots.size := by
    rw [Node.size_slots]
    exact Nat.lt_of_le_of_lt hk h.lt_size
  exact ⟨_, Array.getElem?_eq_getElem hlt⟩

/-- A literal with something behind it is not the root. -/
theorem pos (h : Pair n t i j opening closing s s') : 0 < i :=
  Slots.pos_of_value h.wellPositioned h.first h.firstValue h.lt h.lt_size

theorem at_first (h : Pair n t i j opening closing s s') : t.span? i = some opening := by
  rw [Slots.span?, h.inOrder.same i (Nat.le_refl i), h.first]
  exact h.firstSpan

theorem at_last (h : Pair n t i j opening closing s s') : t.span? j = some closing := by
  rw [Slots.span?, h.inOrder.same j (Nat.le_of_lt h.lt), h.last]
  exact h.lastSpan

theorem opening_lt (h : Pair n t i j opening closing s s') : opening.start < opening.stop := by
  obtain ⟨p, hp, hne⟩ := Slots.nonempty_of_wellPositioned h.wellPositioned h.first h.pos
  obtain rfl := Option.some.inj (h.firstSpan.symm.trans hp)
  exact hne

theorem closing_lt (h : Pair n t i j opening closing s s') : closing.start < closing.stop := by
  obtain ⟨p, hp, hne⟩ :=
    Slots.nonempty_of_wellPositioned h.wellPositioned h.last (Nat.lt_of_le_of_lt (Nat.zero_le i) h.lt)
  obtain rfl := Option.some.inj (h.lastSpan.symm.trans hp)
  exact hne

/-- A node after the opening tag starts behind it. -/
theorem opening_stop_le (h : Pair n t i j opening closing s s') (hk : n.slots[k]? = some r)
    (hp : r.node.span = some p) (hik : i < k) : opening.stop ≤ p.start :=
  Slots.start_of_wellPositioned h.wellPositioned h.first hk hik h.firstValue _ h.firstSpan _ hp

/-- A literal up to the closing tag stops where that one stops or before. -/
theorem stop_le_closing (h : Pair n t i j opening closing s s') (hk : n.slots[k]? = some r)
    (hp : r.node.span = some p) (hv : r.node.value.isSome = true) (hkj : k ≤ j) : p.stop ≤ closing.stop := by
  rcases Nat.eq_or_lt_of_le hkj with rfl | hkj
  · obtain rfl := Option.some.inj (h.last.symm.trans hk)
    obtain rfl := Option.some.inj (h.lastSpan.symm.trans hp)
    exact Nat.le_refl _
  · have := Slots.start_of_wellPositioned h.wellPositioned hk h.last hkj hv _ hp _ h.lastSpan
    have := h.closing_lt
    omega

/-- A node after the closing tag stops behind it. -/
theorem closing_lt_stop (h : Pair n t i j opening closing s s') (hk : n.slots[k]? = some r)
    (hp : r.node.span = some p) (hjk : j < k) : closing.stop < p.stop := by
  have := Slots.start_of_wellPositioned h.wellPositioned h.last hk hjk h.lastValue _ h.lastSpan _ hp
  obtain ⟨q, hq, hne⟩ := Slots.nonempty_of_wellPositioned h.wellPositioned hk (by omega)
  obtain rfl := Option.some.inj (hp.symm.trans hq)
  omega

/-- The slot at a place of `n`, in the table and in the one with the pair joined. -/
theorem slot (h : Pair n t i j opening closing s s') (hk : n.slots[k]? = some r) :
    ∃ a a', t[k]? = some a ∧ (merge t i j)[k]? = some a' ∧ Slots.SameShape a r ∧
      MergedSlot t i j k opening closing a a' := by
  obtain ⟨a, ha, hshape⟩ := h.inOrder.shaped k r (by simpa [Node.slots_eq] using hk)
  rw [Nat.zero_add] at ha
  obtain ⟨a', ha', hmerged⟩ := getElem?_merge h.at_first h.at_last ha
  exact ⟨a, a', ha, ha', hshape, hmerged⟩

theorem shaped_merge (h : Pair n t i j opening closing s s') : (merge t i j).Shaped 0 (slotsAt none 0 n) := by
  intro k r hk
  rw [Nat.zero_add]
  obtain ⟨a, a', -, ha', hshape, hmerged⟩ := h.slot (k := k) (r := r) (by simpa [Node.slots_eq] using hk)
  exact ⟨a', ha', hmerged.parent.trans hshape.parent, hmerged.children.trans hshape.children,
    hmerged.isParent.trans hshape.isParent, hmerged.bare hshape.bare⟩

/-! #### What is removed -/

/-- Up to the opening tag nothing is removed. -/
theorem isRemoved_merge_of_le (h : Pair n t i j opening closing s s') (hk : k ≤ i) :
    (merge t i j).isRemoved k = t.isRemoved k := by
  refine Slots.isRemoved_congr fun m hm => ?_
  have hmi : m ≤ i := Nat.le_trans hm hk
  obtain ⟨r, hr⟩ := h.exists_slot (Nat.le_trans hmi (Nat.le_of_lt h.lt))
  obtain ⟨a, a', ha, ha', -, hmerged⟩ := h.slot hr
  simp [ha, ha', hmerged.removed, hmerged.parent, Nat.not_lt.2 hmi]

/-- A node that stops behind the closing tag stays, and so does all that it stands under. -/
theorem isRemoved_merge_of_stop (h : Pair n t i j opening closing s s') (hk : n.slots[k]? = some r)
    (hp : r.node.span = some p) (hstop : closing.stop < p.stop) (hlive : t.isRemoved k = false) :
    (merge t i j).isRemoved k = false := by
  induction k using Nat.strongRecOn generalizing r p with
  | ind k ih =>
    obtain ⟨a, a', ha, ha', hshape, hmerged⟩ := h.slot hk
    rw [Slots.isRemoved_eq ha, Bool.or_eq_false_iff] at hlive
    rw [Slots.isRemoved_eq ha', Bool.or_eq_false_iff, hmerged.removed, hmerged.parent]
    constructor
    · by_cases hik : i < k
      · -- untouched so far, so its span is the one it has in `n`
        obtain rfl : a = r := Option.some.inj (ha.symm.trans ((h.inOrder.same k (by omega)).trans hk))
        have hout : ¬ p.stop ≤ closing.stop := by omega
        simp [hlive.1, hp, StandsBetween, hout]
      · simp [hlive.1, hik]
    · cases hparent : a.parent with
      | none => rfl
      | some q =>
        obtain ⟨hlt, x, hx, y, hy, -, hin⟩ := Slots.parent_of_wellPositioned h.wellPositioned k r hk q
          (by rw [← hshape.1, hparent]; rfl)
        obtain rfl := Option.some.inj (hp.symm.trans hx)
        obtain ⟨r', hr', hy⟩ := Option.bind_eq_some_iff.1 hy
        have hlive' : t.isRemoved q = false := by simpa [hparent, hlt] using hlive.2
        rw [Span.within_iff] at hin
        simp [ih q hlt hr' hy (by omega) hlive']

/-- After the closing tag nothing is removed. -/
theorem isRemoved_merge_of_lt (h : Pair n t i j opening closing s s') (hk : j < k) :
    (merge t i j).isRemoved k = false := by
  cases hn : n.slots[k]? with
  | none =>
    refine Slots.isRemoved_of_none ?_
    rw [getElem?_merge_after h.at_first h.at_last (Nat.le_of_lt h.lt) hk,
      h.inOrder.same k (by have := h.lt; omega), hn]
  | some r =>
    obtain ⟨p, hp, -⟩ := Slots.nonempty_of_wellPositioned h.wellPositioned hn (by omega)
    exact h.isRemoved_merge_of_stop hn hp (h.closing_lt_stop hn hp hk)
      (h.inOrder.live k (by have := h.lt; omega))

/-- Every literal between the tags is removed, and so is the closing tag. -/
theorem isRemoved_merge_between (h : Pair n t i j opening closing s s') (hk : n.slots[k]? = some r)
    (hv : r.node.value.isSome = true) (hik : i < k) (hkj : k ≤ j) : (merge t i j).isRemoved k = true := by
  obtain ⟨a, a', ha, ha', -, hmerged⟩ := h.slot hk
  obtain rfl : a = r := Option.some.inj (ha.symm.trans ((h.inOrder.same k (by omega)).trans hk))
  obtain ⟨p, hp, -⟩ := Slots.nonempty_of_wellPositioned h.wellPositioned hk (by omega)
  have hp : a.node.span = some p := hp
  have h₁ := h.opening_stop_le hk hp hik
  have h₂ := h.stop_le_closing hk hp hv hkj
  rw [Slots.isRemoved_eq ha', hmerged.removed, hp]
  simp [StandsBetween, hik, hkj, h₁, h₂]

theorem liveValue_merge_between (h : Pair n t i j opening closing s s') (hik : i < k) (hkj : k ≤ j) :
    (merge t i j).liveValue k = "" := by
  obtain ⟨r, hr⟩ := h.exists_slot hkj
  obtain ⟨a, a', ha, ha', -, hmerged⟩ := h.slot hr
  obtain rfl : a = r := Option.some.inj (ha.symm.trans ((h.inOrder.same k (by omega)).trans hr))
  cases hv : a.node.value with
  | none =>
    have : a'.node.value = none := by rw [hmerged.value, if_neg (by omega), hv]
    simp [liveValue, ha', this]
  | some v => simp [liveValue, h.isRemoved_merge_between hr (by simp [hv]) hik hkj]

/-! #### What is collected -/

theorem range_eq (h : Pair n t i j opening closing s s') :
    Span.make opening.start closing.stop = ⟨opening.start, closing.stop⟩ := by
  have h₁ := h.opening_lt
  have h₂ := h.closing_lt
  have h₃ := h.opening_stop_le h.last h.lastSpan h.lt
  exact if_pos (by omega)

/-- The text that the opening tag gets is all that stands from the one tag to the other. -/
theorem literalText_eq (h : Pair n t i j opening closing s s') :
    literalText t (Span.make opening.start closing.stop) i j = t.liveText i (j + 1 - i) := by
  rw [literalText, join_filterMap, liveText]
  congr 1
  refine List.map_congr_left fun k hk => ?_
  rw [List.mem_range'_1] at hk
  have hik := hk.1
  have hkj : k ≤ j := by omega
  have hsame := h.inOrder.same k hik
  simp only [liveValue]
  split
  · rfl
  · split
    · next v p data parent places isParent removed heq =>
      rw [heq] at hsame
      have hstart : opening.start ≤ p.start := by
        rcases Nat.eq_or_lt_of_le hik with rfl | hik
        · obtain rfl := Option.some.inj (h.first.symm.trans hsame.symm)
          exact Nat.le_of_eq (congrArg Span.start (Option.some.inj h.firstSpan)).symm
        · have := h.opening_stop_le hsame.symm rfl hik
          have := h.opening_lt
          omega
      have hstop := h.stop_le_closing hsame.symm rfl rfl hkj
      have hin : p.within (Span.make opening.start closing.stop) = true := by
        rw [h.range_eq, Span.within_iff]
        exact ⟨hstart, hstop⟩
      simp [heq, hin]
    · next hnot =>
      cases hs : t[k]? with
      | none => rfl
      | some a =>
        rw [hs] at hsame
        obtain ⟨p, hp⟩ := Slots.span_of_wellPositioned h.wellPositioned hsame.symm
        cases hv : a.node.value with
        | none => simp [hv]
        | some v =>
          obtain ⟨⟨kind, value, children, span, data⟩, parent, places, isParent, removed⟩ := a
          simp only at hp hv
          subst hp hv
          exact (hnot _ _ _ _ _ _ _ _ _ hs).elim

theorem liveValue_merge_first (h : Pair n t i j opening closing s s') :
    (merge t i j).liveValue i = t.liveText i (j + 1 - i) := by
  obtain ⟨a, a', ha, ha', -, hmerged⟩ := h.slot h.first
  have hlive : (merge t i j).isRemoved i = false :=
    (h.isRemoved_merge_of_le (Nat.le_refl i)).trans (h.inOrder.live i (Nat.le_refl i))
  rw [← h.literalText_eq]
  simp [liveValue, hlive, ha', hmerged.value]

/-- Outside of the pair the values stay. -/
theorem liveValue_merge_outside (h : Pair n t i j opening closing s s') (hk : k < i ∨ j < k) :
    (merge t i j).liveValue k = t.liveValue k := by
  rcases hk with hk | hk
  · rw [liveValue, liveValue, h.isRemoved_merge_of_le (Nat.le_of_lt hk)]
    obtain ⟨r, hr⟩ := h.exists_slot (Nat.le_of_lt (Nat.lt_trans hk h.lt))
    obtain ⟨a, a', ha, ha', -, hmerged⟩ := h.slot hr
    simp [ha, ha', hmerged.value, Nat.ne_of_lt hk]
  · rw [liveValue, liveValue, h.isRemoved_merge_of_lt hk,
      h.inOrder.live k (by have := h.lt; omega),
      getElem?_merge_after h.at_first h.at_last (Nat.le_of_lt h.lt) hk]

/-- Joining a pair keeps the text of the table. -/
theorem liveText_merge (h : Pair n t i j opening closing s s') :
    (merge t i j).liveText 0 n.size = t.liveText 0 n.size := by
  have hj := h.lt_size
  have hij := h.lt
  -- before the pair, its opening tag, the rest of it, after the pair
  have hsize : n.size = i + ((1 + (j - i)) + (n.size - (j + 1))) := by omega
  have hbefore : (merge t i j).liveText 0 i = t.liveText 0 i :=
    Slots.liveText_congr fun k _ hk => h.liveValue_merge_outside (.inl (by omega))
  have hinside : (merge t i j).liveText (i + 1) (j - i) = "" :=
    Slots.liveText_eq_empty fun k hk hk' => h.liveValue_merge_between (by omega) (by omega)
  have hafter : (merge t i j).liveText (i + (1 + (j - i))) (n.size - (j + 1)) =
      t.liveText (i + (1 + (j - i))) (n.size - (j + 1)) :=
    Slots.liveText_congr fun k hk _ => h.liveValue_merge_outside (.inr (by omega))
  have hlen : 1 + (j - i) = j + 1 - i := by omega
  rw [hsize, Slots.liveText_add, Slots.liveText_add, Slots.liveText_add t 0, Slots.liveText_add t (0 + i),
    Nat.zero_add, hbefore, Slots.liveText_one_add, h.liveValue_merge_first, hinside, hafter, hlen,
    String.append_empty]

/-- Joining a pair leaves a table that is untouched behind the pair. -/
theorem inOrder_merge (h : Pair n t i j opening closing s s') : InOrder n (merge t i j) (j + 1) where
  shaped := h.shaped_merge
  root := (h.isRemoved_merge_of_le (Nat.zero_le i)).trans h.inOrder.root
  same k hk := by
    rw [getElem?_merge_after h.at_first h.at_last (Nat.le_of_lt h.lt) (by omega),
      h.inOrder.same k (by have := h.lt; omega)]
  live k hk := h.isRemoved_merge_of_lt (by omega)
  text := h.liveText_merge.trans h.inOrder.text

end Pair

/-! ### All pairs -/

theorem InOrder.mono {c : Nat} (h : InOrder n t b) (hbc : b ≤ c) : InOrder n t c where
  shaped := h.shaped
  root := h.root
  same k hk := h.same k (by omega)
  live k hk := h.live k (by omega)
  text := h.text

/-- Two fragments found in `n` are a pair of literals in every table that is untouched from the first on. -/
theorem InOrder.pair {fs : List (Nat × Fragment)} {x y : Nat × Fragment} (h : InOrder n t x.1)
    (hn : n.WellPositioned) (hfs : collect 0 n.slots.toList = .ok fs) (hx : x ∈ fs) (hy : y ∈ fs)
    (hxy : x.1 < y.1) : ∃ opening closing s s', Pair n t x.1 y.1 opening closing s s' := by
  obtain ⟨i, s, hi, hs, hf⟩ := mem_collect hfs hx
  obtain ⟨j, s', hj, hs', hf'⟩ := mem_collect hfs hy
  obtain ⟨-, hspan, hvalue⟩ := fragmentOf_eq_some hf
  obtain ⟨-, hspan', hvalue'⟩ := fragmentOf_eq_some hf'
  obtain ⟨p, hp⟩ := Option.isSome_iff_exists.1 hspan
  obtain ⟨q, hq⟩ := Option.isSome_iff_exists.1 hspan'
  rw [Nat.zero_add] at hi hj
  exact ⟨p, q, s, s', hn, h, hxy, by simpa [hi] using hs, by simpa [hj] using hs', hp, hq, hvalue, hvalue'⟩

/-- A fragment and the closing tag that the table gives for it are a pair; later fragments stand behind the pair. -/
theorem InOrder.pair_of_closings {fs : List (Nat × Fragment)} {f : Fragment} {c : Nat} (h : InOrder n t b)
    (hn : n.WellPositioned) (hfs : collect 0 n.slots.toList = .ok fs) (hk : fs[k]? = some (i, f)) (hbi : b ≤ i)
    (hc : (closings (fs.map Prod.snd))[k]? = some (some c)) :
    ∃ y, fs[c]? = some y ∧ k < c ∧ (∃ opening closing s s', Pair n t i y.1 opening closing s s') ∧
      ∀ l x, c < l → fs[l]? = some x → y.1 < x.1 := by
  have hkc := (closes_of_closings hc).lt
  have hlen : c < fs.length := by simpa using (closes_of_closings hc).lt_length
  have hsorted := pairwise_collect hfs
  have hik : i < fs[c].1 := by
    obtain ⟨hl, hkf⟩ := List.getElem?_eq_some_iff.1 hk
    have := List.pairwise_iff_getElem.1 hsorted k c hl hlen hkc
    rwa [hkf] at this
  refine ⟨fs[c], List.getElem?_eq_getElem hlen, hkc, ?_, fun l x hcl hx => ?_⟩
  · exact (h.mono hbi).pair hn hfs (List.mem_of_getElem? hk) (List.getElem_mem hlen) hik
  · obtain ⟨hl, rfl⟩ := List.getElem?_eq_some_iff.1 hx
    exact List.pairwise_iff_getElem.1 hsorted c l hlen hl hcl

theorem exists_of_opensPair {f : Fragment} (h : opensPair o t i f = true) : ∃ name, f = .opening name := by
  cases f <;> simp [opensPair] at h ⊢

/-- Only an opening tag is looked up in the table of the closing tags. -/
theorem opening_of_lookup {fs : List (Nat × Fragment)} {f : Fragment} {c : Nat}
    (hc : (if opensPair o t i f then (closings (fs.map Prod.snd)).toArray[k]?.join else none) = some c) :
    opensPair o t i f = true ∧ (∃ name, f = .opening name) ∧ (closings (fs.map Prod.snd))[k]?.join = some c := by
  have hopen : opensPair o t i f = true := by
    by_contra hne
    simp [hne] at hc
  exact ⟨hopen, exists_of_opensPair hopen, by simpa [hopen] using hc⟩

/-- Joining all pairs from fragment `k` on keeps the text. -/
theorem pairFrom_inOrder {fs : List (Nat × Fragment)} (hn : n.WellPositioned)
    (hfs : collect 0 n.slots.toList = .ok fs) (k : Nat) (h : InOrder n t b)
    (hb : ∀ l x, k ≤ l → fs[l]? = some x → b ≤ x.1) :
    ∃ b, InOrder n (pairFrom o fs.toArray (closings (fs.map Prod.snd)).toArray t k) b := by
  fun_induction pairFrom o fs.toArray (closings (fs.map Prod.snd)).toArray t k generalizing b with
  | case1 t k hk => exact ⟨b, h⟩
  | case2 t k i f hk hnone ih => exact ih h fun l x hl => hb l x (by omega)
  | case3 t k i f hk c hc ih =>
    have hk : fs[k]? = some (i, f) := by simpa using hk
    obtain ⟨-, -, htable⟩ := opening_of_lookup hc
    obtain ⟨y, hy, hkc, ⟨p, q, s, s', hpair⟩, hlater⟩ :=
      h.pair_of_closings hn hfs hk (hb k _ (Nat.le_refl k) hk) (Option.join_eq_some_iff.1 htable)
    rw [show ((fs.toArray[c]?.map Prod.fst).getD i) = y.1 by simp [hy]] at ih ⊢
    exact ih hpair.inOrder_merge fun l x hl hx => hlater l x (by omega) hx

/-- Joining the tags of a well-positioned tree keeps its text. -/
theorem textContent_reconcile {m : Node} (hn : n.WellPositioned) (h : reconcile o n = .ok m) :
    m.textContent = n.textContent := by
  simp only [reconcile] at h
  split at h
  · simp at h
  · next fs hfs =>
    obtain ⟨b, hb⟩ := pairFrom_inOrder (o := o) hn hfs 0 (inOrder_slots n) fun l x _ _ => Nat.zero_le _
    rw [← Except.ok.inj h, Slots.textContent_toNode hb.shaped hb.root, hb.text]

/-- A tag that is opened in one paragraph and closed in the next. -/
def acrossParagraphs : Node :=
  (Node.parent .root [
    (Node.parent .paragraph [
      (Node.literal .html "<b>").placed 0 3, (Node.literal .text "x").placed 3 4]).placed 0 4,
    (Node.parent .paragraph [
      (Node.literal .text "y").placed 6 7, (Node.literal .html "</b>").placed 7 11,
      (Node.literal .text "z").placed 11 12]).placed 6 12]).placed 0 12

/-- The same with the tags joined. -/
def joinedAcrossParagraphs : Node :=
  (Node.parent .root [
    (Node.parent .paragraph [(Node.literal .html "<b>xy</b>").placed 0 11]).placed 0 11,
    (Node.parent .paragraph [(Node.literal .text "z").placed 11 12]).placed 6 12]).placed 0 12

theorem wellPositioned_acrossParagraphs : acrossParagraphs.WellPositioned := by
  decide

theorem textContent_acrossParagraphs :
    acrossParagraphs.WellPositioned ∧ reconcile {} acrossParagraphs = .ok joinedAcrossParagraphs ∧
      joinedAcrossParagraphs.textContent = acrossParagraphs.textContent := by
  have h : reconcile {} acrossParagraphs = .ok joinedAcrossParagraphs := by decide +kernel
  exact ⟨wellPositioned_acrossParagraphs, h, textContent_reconcile wellPositioned_acrossParagraphs h⟩

end RichDoc.Html
