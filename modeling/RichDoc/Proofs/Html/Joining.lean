import Mathlib.Data.List.TakeWhile
import RichDoc.Proofs.Html.TreeWide

/-!
# What holds of a table once all pairs are joined

`pairFrom_induct` is induction along the fragments of a tree: what holds of the tree's own table, is kept by passing
over a tag that opens no pair (`Passed`), and is kept by joining a pair (`Joint`), holds of the last table. Joining a
pair leaves kind and data of all nodes as they are, and the values of all but the opening tag (`Joint.node`).
-/

namespace RichDoc.Html
open Node (slotsAt)

variable {n : Node} {t : Slots} {o : Options} {fs : List (Nat × Fragment)} {i j k c : Nat} {name : String}
  {opening closing : Span} {s s' a : Slot}

/-- A tag of this name opens a pair if a closing tag follows. -/
def Opens (o : Options) (name : String) : Prop := (o.skipVoid && isVoidElement name) = false

/-- If fragment `k` could open a pair, then it is removed, or no closing tag of its name follows. -/
def Passed (o : Options) (fs : List (Nat × Fragment)) (t : Slots) (k : Nat) : Prop :=
  ∀ i name, fs[k]? = some (i, .opening name) → Opens o name →
    t.isRemoved i = true ∨ ∀ x ∈ fs.drop (k + 1), x.2 ≠ .closing name

/-- Fragment `k`, at place `i`, and fragment `c`, at place `j`, are tags of one name that are joined in the table. -/
structure Joint (n : Node) (fs : List (Nat × Fragment)) (t : Slots) (k c i j : Nat) (name : String)
    (opening closing : Span) (s s' : Slot) : Prop extends Pair n t i j opening closing s s' where
  aligned : Aligned n t
  index : k < c
  firstAt : fs[k]? = some (i, .opening name)
  lastAt : fs[c]? = some (j, .closing name)
  firstRead : fragmentOf s.node = .ok (some (.opening name))
  lastRead : fragmentOf s'.node = .ok (some (.closing name))

theorem fragmentOf_of_collect (hfs : collect 0 n.slots.toList = .ok fs) {x : Nat × Fragment} (hx : x ∈ fs)
    (hs : n.slots[x.1]? = some s) : fragmentOf s.node = .ok (some x.2) := by
  obtain ⟨m, r, hm, hr, hread⟩ := mem_collect hfs hx
  rw [Nat.zero_add] at hm
  rw [Array.getElem?_toList, ← hm, hs] at hr
  rwa [Option.some.inj hr]

/-- The closing tag that the table gives for an opening one. -/
theorem getElem?_of_closings (hk : fs[k]? = some (i, .opening name))
    (hc : (closings (fs.map Prod.snd))[k]?.join = some c) : k < c ∧ ∃ j, fs[c]? = some (j, .closing name) := by
  obtain ⟨hkc, f, m, hf, hm, hlast⟩ := closes_of_closings (Option.join_eq_some_iff.1 hc)
  rw [List.getElem?_map, hk, Option.map_some, Option.some.injEq] at hf
  obtain rfl : name = m := by simpa [← hf, Fragment.name?] using hm
  rw [List.getElem?_map] at hlast
  obtain ⟨⟨j, g⟩, hj, rfl⟩ := Option.map_eq_some_iff.1 hlast
  exact ⟨hkc, j, hj⟩

/-- What holds at the start and is kept along the fragments holds at the end. -/
theorem pairFrom_induct {P : Nat → Slots → Prop} (hn : n.WellPositioned) (hfs : collect 0 n.slots.toList = .ok fs)
    (pass : ∀ k t, k < fs.length → Passed o fs t k → P k t → P (k + 1) t)
    (join : ∀ {k c t i j name opening closing s s'}, Joint n fs t k c i j name opening closing s s' → P k t →
      P (c + 1) (merge t i j))
    {b : Nat} (h : InOrder n t b) (ha : Aligned n t) (hb : ∀ l x, k ≤ l → fs[l]? = some x → b ≤ x.1) (hP : P k t) :
    ∃ b l u, pairFrom o fs.toArray (closings (fs.map Prod.snd)).toArray t k = u ∧
      InOrder n u b ∧ Aligned n u ∧ fs.length ≤ l ∧ P l u := by
  fun_induction pairFrom o fs.toArray (closings (fs.map Prod.snd)).toArray t k generalizing b with
  | case1 t k hk => exact ⟨b, k, t, rfl, h, ha, by simpa using hk, hP⟩
  | case2 t k i f hk hnone ih =>
    have hk : fs[k]? = some (i, f) := by simpa using hk
    refine ih h ha (fun l x hl => hb l x (by omega)) (pass k t (List.getElem?_eq_some_iff.1 hk).1 ?_ hP)
    intro i' name hk' hopens
    obtain ⟨rfl, rfl⟩ := Prod.mk.inj (Option.some.inj (hk.symm.trans hk'))
    cases hr : t.isRemoved i with
    | true => exact .inl rfl
    | false =>
      have htable : (closings (fs.map Prod.snd))[k]?.join = none := by
        simpa [opensPair, hr, show (o.skipVoid && isVoidElement name) = false from hopens] using hnone
      refine .inr fun x hx hclosing => ?_
      have hdrop := dropWhile_closing hk
      rw [htable, Option.elim_none, List.dropWhile_eq_nil_iff] at hdrop
      simpa [hclosing, Fragment.isClosing] using hdrop x hx
  | case3 t k i f hk c hc ih =>
    have hk : fs[k]? = some (i, f) := by simpa using hk
    obtain ⟨-, ⟨name, rfl⟩, htable⟩ := opening_of_lookup hc
    obtain ⟨y, hy, hkc, ⟨p, q, s, s', hpair⟩, hlater⟩ :=
      h.pair_of_closings hn hfs hk (hb k _ (Nat.le_refl k) hk) (Option.join_eq_some_iff.1 htable)
    obtain ⟨-, j, hy'⟩ := getElem?_of_closings hk htable
    obtain rfl : y = (j, .closing name) := Option.some.inj (hy.symm.trans hy')
    have hjoint : Joint n fs t k c i j name p q s s' :=
      { hpair with
        aligned := ha
        index := hkc
        firstAt := hk
        lastAt := hy
        firstRead := fragmentOf_of_collect hfs (List.mem_of_getElem? hk) hpair.first
        lastRead := fragmentOf_of_collect hfs (List.mem_of_getElem? hy) hpair.last }
    rw [show ((fs.toArray[c]?.map Prod.fst).getD i) = j by simp [hy]] at ih ⊢
    rw [show max k c + 1 = c + 1 by omega] at ih ⊢
    exact ih hpair.inOrder_merge (hpair.merge_eq_joinWhole ha ▸ hpair.aligned_joinWhole ha)
      (fun l x hl hx => hlater l x (by omega) hx) (join hjoint hP)

namespace Joint

/-- What a node of the table is once the pair is joined. -/
theorem node (h : Joint n fs t k c i j name opening closing s s') {m : Nat} (hm : t[m]? = some a) :
    ∃ a', (merge t i j)[m]? = some a' ∧ a'.node.kind = a.node.kind ∧ a'.node.data = a.node.data ∧
      a'.node.span.isSome = a.node.span.isSome ∧ (m ≠ i → a'.node.value = a.node.value) := by
  rw [h.merge_eq_joinWhole h.aligned, h.getElem?_joinWhole, hm, Option.map_some]
  refine ⟨_, rfl, ?_⟩
  by_cases hmi : m = i
  · subst hmi
    obtain rfl : a = s := by
      rw [h.inOrder.same m (Nat.le_refl m), h.first] at hm
      exact (Option.some.inj hm).symm
    obtain ⟨hkind, hspan, -⟩ := fragmentOf_eq_some h.firstRead
    simp [hkind, hspan]
  · by_cases hab : m ∈ above t i <;> simp [hmi, hab]

theorem size_merge (h : Joint n fs t k c i j name opening closing s s') : (merge t i j).size = t.size := by
  rw [h.merge_eq_joinWhole h.aligned]
  simp only [joinWhole, h.at_first, h.at_last, Array.size_mapIdx]

end Joint

end RichDoc.Html
