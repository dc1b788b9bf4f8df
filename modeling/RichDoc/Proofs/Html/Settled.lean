import RichDoc.Catalog.Html
import RichDoc.Proofs.Html.Joining
import RichDoc.Proofs.Html.Rooting

/-!
# Joining and wrapping a second time

A tree is `Settled` if all its literals can be read and no tag that would open a pair has its closing tag behind it.
Joining leaves a settled tree as it is (`reconcile_of_settled`) and makes a well-positioned tree settled
(`settled_of_reconcile`): a joined literal has more than two brackets and is no fragment any more, all fragments
between its tags are removed, and what was passed over had no closing tag behind it. Wrapping adds no literal and
keeps their order, so that it keeps a tree settled. Hence a second run of all passes changes nothing.
-/

namespace RichDoc.Html
open Slots (liveNodes)

variable {n m : Node} {t u : Slots} {o : Options} {fs : List (Nat × Fragment)} {i j k c : Nat} {name : String}
  {opening closing : Span} {s s' a : Slot}

/-! ### What is read in a tree -/

/-- The fragment of a node or why it cannot be read, if it is a literal between angle brackets. -/
def reading? (e : Node) : Option (Except MalformedFragment Fragment) :=
  match fragmentOf e with
  | .ok none => none
  | .ok (some f) => some (.ok f)
  | .error e => some (.error e)

/-- What is read in a tree, in document order. -/
def readings (n : Node) : List (Except MalformedFragment Fragment) := n.nodes.filterMap reading?

/-- All literals can be read, and no tag that opens a pair has its closing tag behind it. -/
structure Settled (o : Options) (n : Node) : Prop where
  readable : ∀ x ∈ readings n, ∃ f, x = .ok f
  apart : (readings n).Pairwise fun x y =>
    ∀ name, x = .ok (.opening name) → Opens o name → y ≠ .ok (.closing name)

theorem reading?_eq_some {e : Node} {f : Fragment} :
    reading? e = some (.ok f) ↔ fragmentOf e = .ok (some f) := by
  unfold reading?
  split <;> simp_all

theorem reading?_eq_none {e : Node} (h : fragmentOf e = .ok none) : reading? e = none := by
  simp [reading?, h]

/-- If all can be read, then reading succeeds. -/
theorem mapM_fragmentOf {es : List Node} (h : ∀ x ∈ es.filterMap reading?, ∃ f, x = .ok f) :
    ∃ gs, es.mapM fragmentOf = .ok gs ∧ es.filterMap reading? = (gs.filterMap id).map .ok := by
  induction es with
  | nil => exact ⟨[], rfl, rfl⟩
  | cons e r ih =>
    cases he : fragmentOf e with
    | error x =>
      obtain ⟨f, hf⟩ := h (.error x) (List.mem_filterMap.2 ⟨e, by simp, by simp [reading?, he]⟩)
      cases hf
    | ok f =>
      obtain ⟨gs, hgs, hread⟩ := ih fun x hx => h x (by
        obtain ⟨e', he', hx⟩ := List.mem_filterMap.1 hx
        exact List.mem_filterMap.2 ⟨e', by simp [he'], hx⟩)
      refine ⟨f :: gs, by rw [List.mapM_cons, he, hgs]; rfl, ?_⟩
      cases f with
      | none => simpa [reading?, he] using hread
      | some f => simpa [reading?, he] using hread

theorem fragments_of_readable (h : ∀ x ∈ readings n, ∃ f, x = .ok f) :
    ∃ fs, fragments n = .ok fs ∧ readings n = (fs.map Prod.snd).map .ok := by
  obtain ⟨gs, hgs, hread⟩ := mapM_fragmentOf h
  refine ⟨gs.zipIdx.filterMap fun x => x.1.map (x.2, ·), by rw [fragments, hgs]; rfl, ?_⟩
  have hsnd : (gs.zipIdx.filterMap fun x => x.1.map (x.2, ·)).map Prod.snd = gs.filterMap id := by
    calc (gs.zipIdx.filterMap fun x => x.1.map (x.2, ·)).map Prod.snd
      _ = gs.zipIdx.filterMap Prod.fst := by simp [List.map_filterMap, Function.comp_def]
      _ = (gs.zipIdx.map Prod.fst).filterMap id := by rw [List.filterMap_map]; rfl
      _ = gs.filterMap id := by rw [List.zipIdx_map_fst]
  rw [hsnd]
  exact hread

/-- Wrapping keeps what is read, and its order. -/
theorem readings_wrapStray (n : Node) : readings (wrapStray n) = readings n := by
  have hunder (k : Kind) (c : Node) (h : readings (wrapStray c) = readings c) :
      readings (wrapUnder k c) = readings c := by
    rcases wrapUnder_cases k c with ⟨heq, -⟩ | ⟨heq, -⟩
    · rw [heq, h]
    · have hparagraph : reading? (paragraphOf (wrapStray c)) = none := rfl
      rw [heq, readings, Node.nodes_eq, List.filterMap_cons, hparagraph, ← h]
      simp [readings]
  induction n using Node.induct with
  | step n ih =>
    have hself : reading? (wrapStray n) = reading? n := by rw [wrapStray_eq]; rfl
    simp only [readings, Node.nodes_eq (wrapStray n), Node.nodes_eq n, List.filterMap_cons, hself, childList_wrapStray,
      List.filterMap_flatMap, List.flatMap_map]
    have hbelow : (n.childList.flatMap fun c => (wrapUnder n.kind c).nodes.filterMap reading?) =
        n.childList.flatMap fun c => c.nodes.filterMap reading? :=
      List.flatMap_congr fun c hc => hunder n.kind c (ih c hc)
    rw [hbelow]

theorem settled_wrapStray (h : Settled o n) : Settled o (wrapStray n) where
  readable := by rw [readings_wrapStray]; exact h.readable
  apart := by rw [readings_wrapStray]; exact h.apart

/-! ### Joining a settled tree -/

theorem pairFrom_of_apart
    (h : (fs.map Prod.snd).Pairwise fun f g => ∀ name, f = .opening name → Opens o name → g ≠ .closing name) (t : Slots)
    (k : Nat) : pairFrom o fs.toArray (closings (fs.map Prod.snd)).toArray t k = t := by
  fun_induction pairFrom o fs.toArray (closings (fs.map Prod.snd)).toArray t k with
  | case1 => rfl
  | case2 t k i f hk hnone ih => exact ih
  | case3 t k i f hk c hc ih =>
    have hk : fs[k]? = some (i, f) := by simpa using hk
    obtain ⟨hopen, ⟨name, rfl⟩, htable⟩ := opening_of_lookup hc
    obtain ⟨hkc, j, hj⟩ := getElem?_of_closings hk htable
    have hopens : Opens o name := by
      simp only [opensPair, Bool.and_eq_true, Bool.not_eq_true'] at hopen
      exact hopen.2
    obtain ⟨hlk, hgk⟩ := List.getElem?_eq_some_iff.1 hk
    obtain ⟨hlc, hgc⟩ := List.getElem?_eq_some_iff.1 hj
    have := List.pairwise_iff_getElem.1 h k c (by simpa using hlk) (by simpa using hlc) hkc name (by simp [hgk]) hopens
    simp [hgc] at this

/-- A settled tree stays as it is. -/
theorem reconcile_of_settled (h : Settled o n) : reconcile o n = .ok n := by
  obtain ⟨fs, hfs, hread⟩ := fragments_of_readable h.readable
  have happart : (fs.map Prod.snd).Pairwise fun f g => ∀ name, f = .opening name → Opens o name → g ≠ .closing name := by
    have := h.apart
    rw [hread, List.pairwise_map] at this
    exact this.imp fun hfg name hf hopens hg => hfg name (by rw [hf]) hopens (by rw [hg])
  simp only [reconcile, collect_slots, hfs, pairFrom_of_apart happart, Slots.toNode_slots]

/-! ### Joining settles a tree -/

theorem read_of_collect (hfs : collect 0 n.slots.toList = .ok fs) (hs : n.slots[k]? = some s) :
    fragmentOf s.node = .ok none ∨ ∃ f, (k, f) ∈ fs ∧ fragmentOf s.node = .ok (some f) := by
  have hlist {i : Nat} {l : List Slot} {fs : List (Nat × Fragment)} (h : collect i l = .ok fs) {k : Nat} {s : Slot}
      (hs : l[k]? = some s) :
      fragmentOf s.node = .ok none ∨ ∃ f, (i + k, f) ∈ fs ∧ fragmentOf s.node = .ok (some f) := by
    induction l generalizing i fs k with
    | nil => simp at hs
    | cons r l ih =>
      obtain ⟨f, gs, hf, hgs, rfl⟩ := collect_cons h
      cases k with
      | zero =>
        obtain rfl : r = s := Option.some.inj hs
        cases f with
        | none => exact .inl hf
        | some f => exact .inr ⟨f, by simp, hf⟩
      | succ k =>
        refine (ih hgs hs).imp_right fun ⟨g, hg, hread⟩ => ⟨g, ?_, hread⟩
        rw [Nat.add_right_comm] at hg
        cases f with
        | none => exact hg
        | some f => exact List.mem_cons_of_mem _ hg
  simpa using hlist hfs (show n.slots.toList[k]? = some s by simpa using hs)

/-- Fragments are found in the order of their places. -/
theorem place_lt (hfs : collect 0 n.slots.toList = .ok fs) {x y : Nat × Fragment} (hx : fs[k]? = some x)
    (hy : fs[c]? = some y) (h : k < c) : x.1 < y.1 := by
  obtain ⟨hk, rfl⟩ := List.getElem?_eq_some_iff.1 hx
  obtain ⟨hc, rfl⟩ := List.getElem?_eq_some_iff.1 hy
  exact List.pairwise_iff_getElem.1 (pairwise_collect hfs) k c hk hc h

theorem slot_of_fragment (hfs : collect 0 n.slots.toList = .ok fs) {x : Nat × Fragment} (hx : fs[k]? = some x) :
    ∃ r, n.slots[x.1]? = some r ∧ fragmentOf r.node = .ok (some x.2) := by
  obtain ⟨m, r, hm, hr, hread⟩ := mem_collect hfs (List.mem_of_getElem? hx)
  rw [Nat.zero_add] at hm
  exact ⟨r, by simpa [hm] using hr, hread⟩

namespace Joint

/-- A joined literal is no fragment. -/
theorem fragmentOf_first (h : Joint n fs t k c i j name opening closing s s') (ha : (merge t i j)[i]? = some a) :
    fragmentOf a.node = .ok none := by
  obtain ⟨r, r', -, hr', -, hmerged⟩ := h.slot h.first
  obtain rfl := Option.some.inj (ha.symm.trans hr')
  have hij := h.lt
  obtain ⟨v, hv, hvf⟩ := isFragment_of_fragmentOf h.firstRead
  obtain ⟨w, hw, hwf⟩ := isFragment_of_fragmentOf h.lastRead
  have hfirst : t.liveValue i = v := by
    simp [Slots.liveValue, h.inOrder.live i (Nat.le_refl i), h.inOrder.same i (Nat.le_refl i), h.first, hv]
  have hlast : t.liveText j 1 = w := by
    simp [Slots.liveText, Slots.liveValue, h.inOrder.live j (Nat.le_of_lt hij), h.inOrder.same j (Nat.le_of_lt hij),
      h.last, hw]
  have hvalue : a.node.value = some (v ++ (t.liveText (i + 1) (j - i - 1) ++ w)) := by
    rw [hmerged.value, if_pos rfl, h.literalText_eq, show j + 1 - i = 1 + (j - i - 1 + 1) by omega,
      Slots.liveText_one_add, Slots.liveText_add, hfirst, show i + 1 + (j - i - 1) = j by omega, hlast]
  have hclassify : Fragment.classify (v ++ (t.liveText (i + 1) (j - i - 1) ++ w)) = .ok none := by
    simp [Fragment.classify, isFragment_append hvf hwf]
  rw [fragmentOf_eq_ok, literal?]
  split
  · rw [hvalue]
    exact hclassify
  · rfl

/-- All other nodes are read as before. -/
theorem fragmentOf_merge (h : Joint n fs t k c i j name opening closing s s') {m : Nat} (hm : t[m]? = some a)
    (hmi : m ≠ i) {f : Option Fragment} (hf : fragmentOf a.node = .ok f) :
    ∃ a', (merge t i j)[m]? = some a' ∧ fragmentOf a'.node = .ok f := by
  obtain ⟨a', ha', hkind, -, hspan, hvalue⟩ := h.node hm
  exact ⟨a', ha', (fragmentOf_congr (by simp only [literal?, hkind, hspan, hvalue hmi])).2 hf⟩

end Joint

/-- What is left to read after the first `k` fragments: fragments of the tree at their places, of which those that were
passed over and could open a pair have no closing tag behind them. -/
structure SettledTo (o : Options) (fs : List (Nat × Fragment)) (k : Nat) (t : Slots) : Prop where
  read : ∀ m a, t[m]? = some a →
    fragmentOf a.node = .ok none ∨ ∃ f, (m, f) ∈ fs ∧ fragmentOf a.node = .ok (some f)
  passed : ∀ l i name, l < k → fs[l]? = some (i, .opening name) → Opens o name →
    t.isRemoved i = true ∨ (∀ a, t[i]? = some a → fragmentOf a.node = .ok none) ∨
      ∀ x ∈ fs.drop (l + 1), x.2 ≠ .closing name

theorem SettledTo.pass (h : SettledTo o fs k t) (hk : Passed o fs t k) : SettledTo o fs (k + 1) t where
  read := h.read
  passed l i name hl hi hopens := by
    rcases Nat.lt_succ_iff_lt_or_eq.1 hl with hl | rfl
    · exact h.passed l i name hl hi hopens
    · exact (hk i name hi hopens).imp_right .inr

/-- Joining a pair settles all up to its closing tag. -/
theorem SettledTo.join (h : SettledTo o fs k t) (hfs : collect 0 n.slots.toList = .ok fs)
    (hj : Joint n fs t k c i j name opening closing s s') : SettledTo o fs (c + 1) (merge t i j) where
  read m a' ha' := by
    by_cases hmi : m = i
    · subst hmi
      exact .inl (hj.fragmentOf_first ha')
    · obtain ⟨a, ha⟩ : ∃ a, t[m]? = some a :=
        ⟨_, Array.getElem?_eq_getElem (hj.size_merge ▸ (Array.getElem?_eq_some_iff.1 ha').1)⟩
      rcases h.read m a ha with hnone | ⟨f, hf, hread⟩
      · obtain ⟨b, hb, hnone⟩ := hj.fragmentOf_merge ha hmi hnone
        exact .inl (Option.some.inj (ha'.symm.trans hb) ▸ hnone)
      · obtain ⟨b, hb, hread⟩ := hj.fragmentOf_merge ha hmi hread
        exact .inr ⟨f, hf, Option.some.inj (ha'.symm.trans hb) ▸ hread⟩
  passed l i' name' hl hi' hopens := by
    rcases Nat.lt_trichotomy l k with hlk | rfl | hkl
    · -- before the pair nothing is removed and nothing is read anew
      have hlt : i' < i := place_lt hfs hi' hj.firstAt hlk
      refine (h.passed l i' name' hlk hi' hopens).imp (fun hr => ?_) (Or.imp_left fun hnone b hb => ?_)
      · rw [hj.isRemoved_merge_of_le (Nat.le_of_lt hlt), hr]
      · obtain ⟨a, ha⟩ : ∃ a, t[i']? = some a :=
          ⟨_, Array.getElem?_eq_getElem (hj.size_merge ▸ (Array.getElem?_eq_some_iff.1 hb).1)⟩
        obtain ⟨a', ha', hread⟩ := hj.fragmentOf_merge ha (Nat.ne_of_lt hlt) (hnone a ha)
        exact Option.some.inj (hb.symm.trans ha') ▸ hread
    · obtain ⟨rfl, -⟩ := Prod.mk.inj (Option.some.inj (hi'.symm.trans hj.firstAt))
      exact .inr (.inl fun a ha => hj.fragmentOf_first ha)
    · rcases Nat.lt_succ_iff_lt_or_eq.1 hl with hlc | rfl
      · obtain ⟨r, hr, hread⟩ := slot_of_fragment hfs hi'
        exact .inl (hj.isRemoved_merge_between hr (fragmentOf_eq_some hread).2.2
          (place_lt hfs hj.firstAt hi' hkl) (Nat.le_of_lt (place_lt hfs hi' hj.lastAt hlc)))
      · have := (Prod.mk.inj (Option.some.inj (hi'.symm.trans hj.lastAt))).2
        simp at this

/-- What is read in the tree of a table is what is read at the places that are left. -/
theorem readings_toNode {b : Nat} (h : InOrder n u b) :
    readings u.toNode = (List.range' 0 n.size).filterMap fun k => (u.liveNode? k).bind reading? := by
  calc readings u.toNode
    _ = (u.toNode.nodes.map fun e => { e with children := none }).filterMap reading? := by
      rw [List.filterMap_map]
      rfl
    _ = (u.liveNodes 0 n.size).filterMap reading? := by rw [Slots.nodes_toNode h.shaped h.root]
    _ = _ := by rw [liveNodes, List.filterMap_filterMap]

theorem SettledTo.reading (h : SettledTo o fs k u) {m : Nat} {x : Except MalformedFragment Fragment}
    (hx : (u.liveNode? m).bind reading? = some x) :
    ∃ f a, x = .ok f ∧ (m, f) ∈ fs ∧ u.isRemoved m = false ∧ u[m]? = some a ∧ fragmentOf a.node = .ok (some f) := by
  obtain ⟨e, he, hread⟩ := Option.bind_eq_some_iff.1 hx
  have hlive : u.isRemoved m = false := by
    by_contra hr
    simp [Slots.liveNode?, hr] at he
  obtain ⟨a, ha, rfl⟩ : ∃ a, u[m]? = some a ∧ a.node = e := by simpa [Slots.liveNode?, hlive] using he
  rcases h.read m a ha with hnone | ⟨f, hf, hfrag⟩
  · simp [reading?_eq_none hnone] at hread
  · rw [reading?_eq_some.2 hfrag] at hread
    exact ⟨f, a, (Option.some.inj hread).symm, hf, hlive, ha, hfrag⟩

theorem SettledTo.settled {b : Nat} (h : SettledTo o fs k u) (hk : fs.length ≤ k)
    (hfs : collect 0 n.slots.toList = .ok fs) (hio : InOrder n u b) : Settled o u.toNode where
  readable x hx := by
    rw [readings_toNode hio] at hx
    obtain ⟨m, -, hx⟩ := List.mem_filterMap.1 hx
    obtain ⟨f, -, hf, -⟩ := h.reading hx
    exact ⟨f, hf⟩
  apart := by
    rw [readings_toNode hio]
    refine List.Pairwise.filterMap _ (fun i j hij x hx y hy name hxo hopens hyc => ?_)
      (List.pairwise_lt_range' (s := 0) (n := n.size))
    obtain ⟨f, a, rfl, hf, hlive, ha, hread⟩ := h.reading hx
    obtain ⟨g, -, rfl, hg, -⟩ := h.reading hy
    obtain rfl : f = .opening name := Except.ok.inj hxo
    obtain rfl : g = .closing name := Except.ok.inj hyc
    obtain ⟨l, hl⟩ := List.mem_iff_getElem?.1 hf
    obtain ⟨l', hl'⟩ := List.mem_iff_getElem?.1 hg
    have hll : l < l' := by
      by_contra hle
      rcases Nat.lt_or_eq_of_le (Nat.le_of_not_lt hle) with hlt | rfl
      · exact absurd (place_lt hfs hl' hl hlt) (Nat.lt_asymm hij)
      · cases hl.symm.trans hl'
    rcases h.passed l i name (Nat.lt_of_lt_of_le (List.getElem?_eq_some_iff.1 hl).1 hk) hl hopens with
      hr | hnone | hlater
    · simp [hlive] at hr
    · rw [hnone a ha] at hread
      cases hread
    · refine hlater (j, .closing name) (List.mem_iff_getElem?.2 ⟨l' - (l + 1), ?_⟩) rfl
      rw [List.getElem?_drop, show l + 1 + (l' - (l + 1)) = l' by omega, hl']

/-- Joining all pairs settles a tree. -/
theorem settled_of_reconcile (hn : n.WellPositioned) (h : reconcile o n = .ok m) : Settled o m := by
  simp only [reconcile] at h
  split at h
  · simp at h
  · next fs hfs =>
    have hstart : SettledTo o fs 0 n.slots := ⟨fun k s hs => read_of_collect hfs hs, by simp⟩
    obtain ⟨b, l, u, hu, hio, -, hl, hset⟩ := pairFrom_induct (P := SettledTo o fs) hn hfs
      (fun k t _ hpass h => h.pass hpass) (fun hj h => h.join hfs hj) (inOrder_slots n) (aligned_slots n)
      (fun _ _ _ _ => Nat.zero_le _) hstart
    rw [← Except.ok.inj h, hu]
    exact hset.settled hl hfs hio

/-! ### Both passes twice -/

/-- Joining and wrapping, one or both, change nothing the second time, and neither do all passes together. -/
theorem reconcile_wrapStray_again (hn : n.WellPositioned) (h : reconcile o n = .ok m) :
    reconcile o m = .ok m ∧ reconcile o (wrapStray m) = .ok (wrapStray m) ∧
      wrapStray (wrapStray m) = wrapStray m ∧
      ∃ r, (Catalog.html o).transforms.foldlM (fun n t => t.apply n) n = .ok r ∧
        (Catalog.html o).transforms.foldlM (fun n t => t.apply n) r = .ok r := by
  have hsettled := settled_of_reconcile hn h
  have hm := reconcile_of_settled hsettled
  have hw := reconcile_of_settled (settled_wrapStray hsettled)
  refine ⟨hm, hw, wrapStray_wrapStray m, ?_⟩
  cases hr : o.rooting with
  | false =>
    have hrun (e : Node) : (Catalog.html o).transforms.foldlM (fun n t => t.apply n) e =
        (reconcile o e).mapError .fragment := by
      simp [Catalog.html, hr, Catalog.pairingTransform]
    exact ⟨m, by rw [hrun, h]; rfl, by rw [hrun, hm]; rfl⟩
  | true =>
    have hrun {e r : Node} (he : reconcile o e = .ok r) :
        (Catalog.html o).transforms.foldlM (fun n t => t.apply n) e = .ok (wrapStray r) := by
      simp only [Catalog.html, hr, Catalog.pairingTransform, Catalog.rootingTransform, if_true, List.foldlM_cons,
        List.foldlM_nil, he]
      rfl
    exact ⟨wrapStray m, hrun h, by rw [hrun hw, wrapStray_wrapStray]⟩

/-- A block between two tags, and a tag that is never closed. -/
def betweenTags : Node :=
  (Node.parent .root [
    (Node.literal .html "<div>").placed 0 5,
    (Node.parent .paragraph [(Node.literal .text "in").placed 7 9]).placed 7 9,
    (Node.literal .html "</div>").placed 11 17,
    (Node.literal .html "<hr>").placed 19 23]).placed 0 23

/-- The same with the tags joined. -/
def joinedBetweenTags : Node :=
  (Node.parent .root [
    (Node.literal .html "<div>in</div>").placed 0 17,
    (Node.literal .html "<hr>").placed 19 23]).placed 0 23

theorem reconcile_again_betweenTags :
    betweenTags.WellPositioned ∧ reconcile {} betweenTags = .ok joinedBetweenTags ∧
      reconcile {} (wrapStray joinedBetweenTags) = .ok (wrapStray joinedBetweenTags) ∧
      wrapStray joinedBetweenTags ≠ joinedBetweenTags := by
  have hpositioned : betweenTags.WellPositioned := by decide
  have h : reconcile {} betweenTags = .ok joinedBetweenTags := by decide +kernel
  exact ⟨hpositioned, h, (reconcile_wrapStray_again hpositioned h).2.1, by decide⟩

end RichDoc.Html
