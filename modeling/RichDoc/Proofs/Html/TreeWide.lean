import RichDoc.Proofs.Html.TextKept

/-!
# Joining tags by searching the whole tree

`treeWide` joins tags as one would describe it: for each opening tag it looks on for the nearest closing tag of its
name, collects the literals within the two from the whole tree, removes all that stands between them wherever it is,
and widens the nodes that the opening tag stands under. `reconcile` looks at the places from the one tag to the other
only, and takes the closing tag from a table. On a well-positioned tree both give the same (`reconcile_eq_treeWide`).

The step is `Pair.merge_eq_joinWhole`. It needs to know of the places before the opening tag that their nodes still
start where they started and hold a value only if they held one (`Aligned`), although earlier pairs have widened some
of them: then none of them lies within the two tags or between them. Behind the closing tag nothing has changed.
-/

namespace RichDoc.Html
open Node (slotsAt slotsBelow)

/-! ### Tree-wide joining -/

/-- The fragments of a tree in document order, each with the number of its node; fails on the first malformed one. -/
def fragments (n : Node) : Except MalformedFragment (List (Nat × Fragment)) := do
  let fs ← n.nodes.mapM fragmentOf
  return fs.zipIdx.filterMap fun x => x.1.map (x.2, ·)

/-- The value at a place, if the node there is left and lies within `range`. -/
def textAt (t : Slots) (range : Span) (k : Nat) : String :=
  if !t.isRemoved k && (t.span? k).any (·.within range) then (t[k]?.bind (·.node.value)).getD "" else ""

/-- The values of all nodes of the table that are left and lie within `range`. -/
def textWithin (t : Slots) (range : Span) : String := String.join ((List.range t.size).map (textAt t range))

/-- Joins the opening tag at place `i` to the closing tag at place `j`, with an eye on every node of the table. -/
def joinWhole (t : Slots) (i j : Nat) : Slots :=
  match t.span? i, t.span? j with
  | some opening, some closing =>
    let range := Span.make opening.start closing.stop
    let value := textWithin t range
    t.mapIdx fun k s =>
      if k = i then { s with node := { s.node with kind := .html, value := some value, span := some range } }
      else
        { s with
          removed := s.removed || s.node.span.any (StandsBetween opening closing)
          node := if k ∈ above t i then { s.node with span := s.node.span.map (·.cover range) } else s.node }
  | _, _ => t

/-- Joins the pairs among the fragments, in order; after a pair, goes on behind its closing tag. -/
def pairAll (o : Options) (t : Slots) : List (Nat × Fragment) → Slots
  | [] => t
  | (i, .opening name) :: r =>
    if t.isRemoved i || (o.skipVoid && isVoidElement name) then pairAll o t r
    else match _h : r.dropWhile (fun x => !x.2.isClosing name) with
      | [] => pairAll o t r
      | (j, _) :: r' => pairAll o (joinWhole t i j) r'
  | _ :: r => pairAll o t r
termination_by fs => fs.length
decreasing_by
  · simp
  · simp
  · have hle := (List.dropWhile_suffix (l := r) fun x => !x.2.isClosing name).length_le
    rw [_h, List.length_cons] at hle
    rw [List.length_cons]
    omega
  · simp

/-- Joins all pairs of tags in a tree. -/
def treeWide (o : Options) (n : Node) : Except MalformedFragment Node := do
  let fs ← fragments n
  return (pairAll o n.slots fs).toNode

/-! ### Fragments -/

theorem collect_eq (i : Nat) (l : List Slot) :
    collect i l = (do return ((← l.mapM fun s => fragmentOf s.node).zipIdx i).filterMap fun x => x.1.map (x.2, ·)) := by
  induction l generalizing i with
  | nil => rfl
  | cons s r ih =>
    rw [collect, List.mapM_cons, ih]
    cases fragmentOf s.node with
    | error e => rfl
    | ok f =>
      cases r.mapM fun s => fragmentOf s.node with
      | error e => rfl
      | ok fs => cases f <;> rfl

/-- What is found in the table of a tree is what is found in the tree. -/
theorem collect_slots (n : Node) : collect 0 n.slots.toList = fragments n := by
  have hslots : n.slots.toList = slotsAt none 0 n := by rw [Node.slots_eq]
  have hnodes : (n.slots.toList.mapM fun s => fragmentOf s.node) = n.nodes.mapM fragmentOf := by
    calc (n.slots.toList.mapM fun s => fragmentOf s.node)
      _ = (n.slots.toList.map (·.node)).mapM fragmentOf := by rw [List.mapM_map]; rfl
      _ = (n.nodes.map fun e => { e with children := none }).mapM fragmentOf := by rw [hslots, Node.map_node_slotsAt]
      _ = n.nodes.mapM fragmentOf := List.mapM_map
  rw [collect_eq, fragments, hnodes]

/-- Looking on for a closing tag and reading it off the table lead to the same place. -/
theorem dropWhile_closing {fs : List (Nat × Fragment)} {k i : Nat} {name : String}
    (hk : fs[k]? = some (i, .opening name)) :
    (fs.drop (k + 1)).dropWhile (fun x => !x.2.isClosing name) =
      (closings (fs.map Prod.snd))[k]?.join.elim [] fs.drop := by
  obtain ⟨hlt, -⟩ := List.getElem?_eq_some_iff.1 hk
  have htable : (closings (fs.map Prod.snd))[k]?.join =
      ((fs.drop (k + 1)).findIdx? fun x => x.2.isClosing name).map (k + 1 + ·) := by
    rw [getElem?_closings _ (by simpa using hlt), Option.join_some, laterClosing, List.getElem?_map, hk]
    simp [findClosing, Fragment.name?, ← List.map_drop, List.findIdx?_map, Function.comp_def]
  rw [htable, List.dropWhile_eq_drop_findIdx_not]
  simp only [Bool.not_not]
  cases hfind : (fs.drop (k + 1)).findIdx? fun x => x.2.isClosing name with
  | none => rw [List.findIdx?_eq_none_iff_findIdx_eq.1 hfind, List.drop_length]; rfl
  | some m =>
    rw [(List.findIdx?_eq_some_iff_findIdx_eq.1 hfind).2, List.drop_drop]
    rfl

/-! ### One pair -/

variable {n : Node} {t : Slots} {b i j k : Nat} {o : Options} {opening closing : Span} {s s' : Slot}

/-- The node starts where it started, and holds a value if it held one. -/
def Keeps (a s : Slot) : Prop :=
  a.node.span.map Span.start = s.node.span.map Span.start ∧ a.node.value.isSome = s.node.value.isSome

/-- No node of the table has moved its start, lost its value or got one. -/
abbrev Aligned (n : Node) (t : Slots) : Prop := t.Agrees Keeps 0 (slotsAt none 0 n)

theorem aligned_slots (n : Node) : Aligned n n.slots :=
  (Slots.agrees_slots n).mono fun u s _ hus => by subst hus; exact ⟨rfl, rfl⟩

namespace Pair
variable {p : Span} {a : Slot}

/-- Each slot of the table comes from one of the tree. -/
theorem exists_kept (h : Pair n t i j opening closing s s') (ha : Aligned n t) (hk : t[k]? = some a) :
    ∃ r, n.slots[k]? = some r ∧ Slots.SameShape a r ∧ Keeps a r := by
  obtain ⟨r, hr⟩ : ∃ r, n.slots[k]? = some r := by
    by_cases hki : k < i
    · exact h.exists_slot (Nat.le_of_lt (Nat.lt_trans hki h.lt))
    · exact ⟨a, by rw [← h.inOrder.same k (by omega), hk]⟩
  obtain ⟨x, hx, hshape⟩ := h.inOrder.shaped k r (by simpa [Node.slots_eq] using hr)
  obtain ⟨y, hy, hkeeps⟩ := ha k r (by simpa [Node.slots_eq] using hr)
  rw [Nat.zero_add, hk] at hx hy
  obtain rfl := Option.some.inj hx
  obtain rfl := Option.some.inj hy
  exact ⟨r, hr, hshape, hkeeps⟩

/-- A node before the opening tag starts where the tag starts or before. -/
theorem start_le_opening (h : Pair n t i j opening closing s s') (ha : Aligned n t) (hk : t[k]? = some a)
    (hp : a.node.span = some p) (hki : k < i) : p.start ≤ opening.start := by
  obtain ⟨r, hr, -, hstart, -⟩ := h.exists_kept ha hk
  obtain ⟨q, hq⟩ := Slots.span_of_wellPositioned h.wellPositioned hr
  rw [hp, hq] at hstart
  have hpq : p.start = q.start := Option.some.inj hstart
  have := Slots.start_le_of_wellPositioned h.wellPositioned hr h.first hki q hq _ h.firstSpan
  omega

/-- A literal before the opening tag starts before the tag starts. -/
theorem start_lt_opening (h : Pair n t i j opening closing s s') (ha : Aligned n t) (hk : t[k]? = some a)
    (hp : a.node.span = some p) (hv : a.node.value.isSome = true) (hki : k < i) : p.start < opening.start := by
  obtain ⟨r, hr, -, hstart, hvalue⟩ := h.exists_kept ha hk
  obtain ⟨q, hq, hne⟩ := Slots.nonempty_of_wellPositioned h.wellPositioned hr
    (Slots.pos_of_value h.wellPositioned hr (hvalue.symm.trans hv) hki h.first_lt_size)
  rw [hp, show r.node.span = some q from hq] at hstart
  have hpq : p.start = q.start := Option.some.inj hstart
  have := Slots.start_of_wellPositioned h.wellPositioned hr h.first hki (hvalue.symm.trans hv) q hq _ h.firstSpan
  omega

/-- A node after the closing tag is as it was, and stops behind the tag. -/
theorem closing_lt_stop_table (h : Pair n t i j opening closing s s') (hk : t[k]? = some a)
    (hp : a.node.span = some p) (hjk : j < k) : closing.stop < p.stop := by
  rw [h.inOrder.same k (by have := h.lt; omega)] at hk
  exact h.closing_lt_stop hk hp hjk

/-- Only the places from the opening tag to the closing one have nodes that stand between the two. -/
theorem between_of_standsBetween (h : Pair n t i j opening closing s s') (ha : Aligned n t) (hk : t[k]? = some a)
    (hki : k ≠ i) (hb : a.node.span.any (StandsBetween opening closing)) : i < k ∧ k ≤ j := by
  obtain ⟨p, hp, hstands⟩ := (Option.any_eq_true _ _).1 hb
  simp only [StandsBetween, Bool.and_eq_true, decide_eq_true_eq] at hstands
  have hne := h.opening_lt
  constructor
  · by_contra hle
    have := h.start_le_opening ha hk hp (by omega)
    omega
  · by_contra hlt
    have := h.closing_lt_stop_table hk hp (by omega)
    omega

/-- Only the places from the opening tag to the closing one hold text within the two. -/
theorem textAt_eq_empty (h : Pair n t i j opening closing s s') (ha : Aligned n t) (hk : k < i ∨ j < k) :
    textAt t (Span.make opening.start closing.stop) k = "" := by
  unfold textAt
  split
  · next hin =>
    rw [Bool.and_eq_true] at hin
    obtain ⟨p, hspan, hp⟩ := (Option.any_eq_true _ _).1 hin.2
    obtain ⟨a, hta, hp'⟩ := Option.bind_eq_some_iff.1 hspan
    rw [h.range_eq, Span.within_iff] at hp
    rw [hta, Option.bind_some]
    cases hv : a.node.value with
    | none => rfl
    | some v =>
      rcases hk with hk | hk
      · have := h.start_lt_opening ha hta hp' (by rw [hv]; rfl) hk
        simp only at hp
        omega
      · have := h.closing_lt_stop_table hta hp' hk
        simp only at hp
        omega
  · rfl

end Pair

theorem literalText_eq_join (t : Slots) (range : Span) (i j : Nat) :
    literalText t range i j = String.join ((List.range' i (j + 1 - i)).map (textAt t range)) := by
  rw [literalText, join_filterMap]
  congr 1
  refine List.map_congr_left fun k _ => ?_
  unfold textAt
  cases t.isRemoved k with
  | true => rfl
  | false =>
    cases hs : t[k]? with
    | none => simp [Slots.span?, hs]
    | some a =>
      obtain ⟨⟨kind, value, children, span, data⟩, parent, places, isParent, removed⟩ := a
      cases value with
      | none => simp
      | some v =>
        cases span with
        | none => simp [Slots.span?, hs]
        | some p => by_cases hp : p.within range <;> simp [Slots.span?, hs, hp]

namespace Pair
variable {a : Slot}

/-- The text within the two tags is the text at the places from the one to the other. -/
theorem textWithin_eq (h : Pair n t i j opening closing s s') (ha : Aligned n t) :
    textWithin t (Span.make opening.start closing.stop) =
      literalText t (Span.make opening.start closing.stop) i j := by
  have hij := h.lt
  obtain ⟨a, a', hta, -⟩ := h.slot h.last
  have hj := (Array.getElem?_eq_some_iff.1 hta).1
  have hsize : t.size = i + ((j + 1 - i) + (t.size - (j + 1))) := by omega
  -- before the opening tag, from there to the closing one, behind it
  have hbefore : String.join ((List.range' 0 i).map (textAt t (Span.make opening.start closing.stop))) = "" :=
    Slots.join_range'_eq_empty fun k _ hk => h.textAt_eq_empty ha (.inl (by omega))
  have hafter : String.join ((List.range' (i + (j + 1 - i)) (t.size - (j + 1))).map
      (textAt t (Span.make opening.start closing.stop))) = "" :=
    Slots.join_range'_eq_empty fun k hk _ => h.textAt_eq_empty ha (.inr (by omega))
  rw [literalText_eq_join, textWithin, List.range_eq_range', hsize, ← List.range'_append_1, ← List.range'_append_1,
    List.map_append, List.map_append, String.join_append, String.join_append, hbefore, Nat.zero_add, hafter]
  simp

theorem getElem?_joinWhole (h : Pair n t i j opening closing s s') (k : Nat) :
    (joinWhole t i j)[k]? = t[k]?.map fun a =>
      if k = i then
        { a with node := { a.node with
          kind := .html, value := some (textWithin t (Span.make opening.start closing.stop)),
          span := some (Span.make opening.start closing.stop) } }
      else
        { a with
          removed := a.removed || a.node.span.any (StandsBetween opening closing)
          node := if k ∈ above t i then
            { a.node with span := a.node.span.map (·.cover (Span.make opening.start closing.stop)) } else a.node } := by
  simp only [joinWhole, h.at_first, h.at_last, Array.getElem?_mapIdx]

/-- Joining a pair by looking at the places between its tags is joining it by looking at the whole table. -/
theorem merge_eq_joinWhole (h : Pair n t i j opening closing s s') (ha : Aligned n t) :
    merge t i j = joinWhole t i j := by
  refine Array.ext_getElem? fun k => ?_
  rw [h.getElem?_joinWhole, h.textWithin_eq ha, getElem?_merge_eq h.at_first h.at_last]
  cases hta : t[k]? with
  | none => rfl
  | some a =>
    obtain ⟨_, -, hshape, -⟩ := h.exists_kept ha hta
    have hbare := hshape.bare
    rw [Option.map_some, Option.map_some, joined]
    by_cases hki : k = i
    · subst hki
      simp [hbare]
    · have hbetween : ((i < k ∧ k ≤ j) ∧ a.node.span.any (StandsBetween opening closing)) ↔
          a.node.span.any (StandsBetween opening closing) :=
        ⟨And.right, fun hb => ⟨h.between_of_standsBetween ha hta hki hb, hb⟩⟩
      simp only [hbetween, hki, if_false]
      by_cases hb : a.node.span.any (StandsBetween opening closing) = true <;> by_cases hk : k ∈ above t i <;>
        simp [hb, hk, hbare]

/-- Joining a pair moves no start and takes no value away. -/
theorem aligned_joinWhole (h : Pair n t i j opening closing s s') (ha : Aligned n t) :
    Aligned n (joinWhole t i j) := by
  intro k r hk
  obtain ⟨a, hta, hstart, hvalue⟩ := ha k r hk
  rw [Nat.zero_add] at hta ⊢
  rw [h.getElem?_joinWhole, hta, Option.map_some]
  refine ⟨_, rfl, ?_⟩
  by_cases hki : k = i
  · subst hki
    have hr : r = s := by
      have hfirst := h.first
      simp only [Node.slots_eq, List.getElem?_toArray, hk] at hfirst
      exact Option.some.inj hfirst
    subst hr
    rw [if_pos rfl]
    exact ⟨by simp [h.range_eq, h.firstSpan], by simp [h.firstValue]⟩
  · rw [if_neg hki]
    by_cases hab : k ∈ above t i
    · simp only [hab, if_true]
      refine ⟨?_, hvalue⟩
      rw [← hstart]
      cases hp : a.node.span with
      | none => rfl
      | some p =>
        have hle := h.start_le_opening ha hta hp (lt_of_mem_above hab)
        simp [h.range_eq, Span.cover, hle]
    · simp only [hab, if_false]
      exact ⟨hstart, hvalue⟩

end Pair

/-! ### All pairs -/

theorem pairAll_opening {name : String} {r : List (Nat × Fragment)} :
    pairAll o t ((i, .opening name) :: r) =
      if opensPair o t i (.opening name) then
        match r.dropWhile fun x => !x.2.isClosing name with
        | [] => pairAll o t r
        | (j, _) :: r' => pairAll o (joinWhole t i j) r'
      else pairAll o t r := by
  rw [pairAll]
  cases hr : t.isRemoved i || (o.skipVoid && isVoidElement name)
  · have hopens : opensPair o t i (.opening name) = true := by
      rw [Bool.or_eq_false_iff] at hr
      simp [opensPair, hr]
    rw [hopens, if_pos rfl, if_neg Bool.false_ne_true]
    split
    · next hnil => rw [hnil]
    · next hcons => rw [hcons]
  · have hopens : opensPair o t i (.opening name) = false := by
      simp only [opensPair, ← Bool.not_or, hr, Bool.not_true]
    rw [hopens, if_pos rfl, if_neg Bool.false_ne_true]

theorem pairAll_of_not_opens {f : Fragment} {r : List (Nat × Fragment)} (h : opensPair o t i f = false) :
    pairAll o t ((i, f) :: r) = pairAll o t r := by
  cases f with
  | opening name => rw [pairAll_opening, h, if_neg Bool.false_ne_true]
  | _ =>
    rw [pairAll]
    simp

/-- Joining all pairs from fragment `k` on, either way. -/
theorem pairFrom_eq_pairAll {fs : List (Nat × Fragment)} (hn : n.WellPositioned)
    (hfs : collect 0 n.slots.toList = .ok fs) (k : Nat) (h : InOrder n t b) (ha : Aligned n t)
    (hb : ∀ l x, k ≤ l → fs[l]? = some x → b ≤ x.1) :
    pairFrom o fs.toArray (closings (fs.map Prod.snd)).toArray t k = pairAll o t (fs.drop k) := by
  have hcons {l : Nat} {x : Nat × Fragment} (hx : fs[l]? = some x) : fs.drop l = x :: fs.drop (l + 1) := by
    obtain ⟨hlt, rfl⟩ := List.getElem?_eq_some_iff.1 hx
    exact List.drop_eq_getElem_cons hlt
  fun_induction pairFrom o fs.toArray (closings (fs.map Prod.snd)).toArray t k generalizing b with
  | case1 t k hk =>
    have hlen : fs.length ≤ k := by simpa using hk
    rw [List.drop_eq_nil_of_le hlen, pairAll]
  | case2 t k i f hk hnone ih =>
    have hk : fs[k]? = some (i, f) := by simpa using hk
    rw [ih h ha fun l x hl => hb l x (by omega), hcons hk]
    by_cases hopen : opensPair o t i f = true
    · obtain ⟨name, rfl⟩ := exists_of_opensPair hopen
      have htable : (closings (fs.map Prod.snd))[k]?.join = none := by simpa [hopen] using hnone
      rw [pairAll_opening, hopen, if_pos rfl, dropWhile_closing hk, htable]
      rfl
    · rw [pairAll_of_not_opens (by simpa using hopen)]
  | case3 t k i f hk c hc ih =>
    have hk : fs[k]? = some (i, f) := by simpa using hk
    obtain ⟨hopen, ⟨name, rfl⟩, htable⟩ := opening_of_lookup hc
    obtain ⟨y, hy, hkc, ⟨p, q, s, s', hpair⟩, hlater⟩ :=
      h.pair_of_closings hn hfs hk (hb k _ (Nat.le_refl k) hk) (Option.join_eq_some_iff.1 htable)
    rw [show ((fs.toArray[c]?.map Prod.fst).getD i) = y.1 by simp [hy]] at ih ⊢
    rw [show max k c + 1 = c + 1 by omega] at ih ⊢
    rw [ih hpair.inOrder_merge (hpair.merge_eq_joinWhole ha ▸ hpair.aligned_joinWhole ha) fun l x hl hx =>
      hlater l x (by omega) hx, hcons hk, pairAll_opening, hopen, if_pos rfl, dropWhile_closing hk, htable,
      Option.elim_some, hcons hy, hpair.merge_eq_joinWhole ha]

/-- What comes of a well-positioned tree with these fragments. -/
theorem reconcile_of_fragments {fs : List (Nat × Fragment)} (hn : n.WellPositioned) (o : Options)
    (hfs : fragments n = .ok fs) : reconcile o n = .ok (pairAll o n.slots fs).toNode := by
  rw [← collect_slots] at hfs
  have hpairs := pairFrom_eq_pairAll (o := o) hn hfs 0 (inOrder_slots n) (aligned_slots n) fun l x _ _ =>
    Nat.zero_le _
  rw [List.drop_zero] at hpairs
  simp only [reconcile, hfs, hpairs]

/-- Joining the tags of a well-positioned tree, or failing to, is the same with and without a search of the whole
tree. -/
theorem reconcile_eq_treeWide (hn : n.WellPositioned) (o : Options) : reconcile o n = treeWide o n := by
  cases hfs : fragments n with
  | error e =>
    rw [reconcile, treeWide, collect_slots, hfs]
    rfl
  | ok fs =>
    rw [reconcile_of_fragments hn o hfs, treeWide, hfs]
    rfl

/-- A pair that widens its paragraph into the next one, then a pair in the next one that widens a node of it. -/
def overlapping : Node :=
  (Node.parent .root [
    (Node.parent .paragraph [
      (Node.literal .html "<b>").placed 0 3, (Node.literal .text "x").placed 3 4]).placed 0 4,
    (Node.parent .paragraph [
      (Node.literal .text "y").placed 6 7, (Node.literal .html "</b>").placed 7 11,
      (Node.parent .emphasis [(Node.literal .html "<i>").placed 12 15]).placed 11 16,
      (Node.literal .text "z").placed 16 17, (Node.literal .html "</i>").placed 17 21,
      (Node.literal .html "<b>").placed 21 24]).placed 6 24]).placed 0 24

/-- The same with the tags joined; the last tag has no closing tag. -/
def joinedOverlapping : Node :=
  (Node.parent .root [
    (Node.parent .paragraph [(Node.literal .html "<b>xy</b>").placed 0 11]).placed 0 11,
    (Node.parent .paragraph [
      (Node.parent .emphasis [(Node.literal .html "<i>z</i>").placed 12 21]).placed 11 21,
      (Node.literal .html "<b>").placed 21 24]).placed 6 24]).placed 0 24

theorem treeWide_overlapping :
    overlapping.WellPositioned ∧ reconcile {} overlapping = .ok joinedOverlapping ∧
      treeWide {} overlapping = .ok joinedOverlapping := by
  have hpositioned : overlapping.WellPositioned := by decide
  have h : reconcile {} overlapping = .ok joinedOverlapping := by decide +kernel
  exact ⟨hpositioned, h, (reconcile_eq_treeWide hpositioned {}).symm.trans h⟩

end RichDoc.Html
