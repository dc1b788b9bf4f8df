import Mathlib.Data.List.Forall2
import RichDoc.Proofs.Html.Joining
import RichDoc.Proofs.Html.Rooting

/-!
# What joining leaves of a tree

`Remains m n`: the tree `m` is `n` with subtrees left out and other text in its literals, but with a node left in each
list and each table. Joining the tags of a well-positioned tree leaves such a tree if its lists and tables reach
exactly from their first member to their last (`remains_of_reconcile`). A pair takes all that stands between its tags
by position; if the last member of a list stands there and the opening tag does not stand in the list, then so does
the list. Wrapping stray literals on both sides changes nothing in this (`Remains.wrapStray`).
-/

namespace RichDoc

/-- The kind of the members of a list or a table. -/
def Kind.member? : Kind → Option Kind
  | .list => some .listItem
  | .table => some .tableRow
  | _ => none

theorem Kind.member?_ne_html {k l : Kind} (h : l ∈ k.member?) : l ≠ .html := by
  unfold Kind.member? at h
  split at h <;> simp at h <;> simp [← h]

namespace Node

/-- A list has items and a table has rows, nothing else and at least one, from where the first starts to where the
last stops. -/
structure ListedAt (n : Node) : Prop where
  members : ∀ k ∈ n.kind.member?, ∀ c ∈ n.childList, c.kind = k
  ends : n.kind.member?.isSome = true → ∃ a ∈ n.childList.head?, ∃ b ∈ n.childList.getLast?,
    ∃ p ∈ a.span, ∃ q ∈ b.span, n.span = some ⟨p.start, q.stop⟩

/-- All lists and tables of a tree are so. -/
def Listed (n : Node) : Prop := ∀ e ∈ n.nodes, e.ListedAt

instance : DecidablePred ListedAt := fun n =>
  decidable_of_iff ((∀ k ∈ n.kind.member?, ∀ c ∈ n.childList, c.kind = k) ∧
      (n.kind.member?.isSome = true → ∃ a ∈ n.childList.head?, ∃ b ∈ n.childList.getLast?,
        ∃ p ∈ a.span, ∃ q ∈ b.span, n.span = some ⟨p.start, q.stop⟩))
    ⟨fun ⟨hm, he⟩ => ⟨hm, he⟩, fun h => ⟨h.members, h.ends⟩⟩

instance : DecidablePred Listed := fun n => by
  unfold Listed
  infer_instance

/-- `m` is what is left of `n`, a member at least of each list and table. -/
inductive Remains : Node → Node → Prop where
  | node {m n : Node} (kind : m.kind = n.kind) (data : m.data = n.data)
      (value : n.kind ≠ .html → m.value = n.value)
      (children : List.SublistForall₂ Remains m.childList n.childList)
      (inhabited : ∀ k ∈ n.kind.member?, ∃ c ∈ m.childList, c.kind = k) : Remains m n

theorem Remains.kind_eq {m n : Node} : Remains m n → m.kind = n.kind
  | .node kind _ _ _ _ => kind

end Node

/-- Related members are related after a map if the map says so of the members that the second list has. -/
theorem sublistForall₂_map {α β γ δ : Type} {R : α → β → Prop} {S : γ → δ → Prop} {f : α → γ} {g : β → δ}
    {as : List α} {bs : List β} (h : List.SublistForall₂ R as bs) (hmap : ∀ b ∈ bs, ∀ a, R a b → S (f a) (g b)) :
    List.SublistForall₂ S (as.map f) (bs.map g) := by
  induction h with
  | nil => exact .nil
  | cons hab _ ih =>
    obtain ⟨hb, hr⟩ := List.forall_mem_cons.1 hmap
    exact .cons (hb _ hab) (ih hr)
  | cons_right _ ih => exact .cons_right (ih (List.forall_mem_cons.1 hmap).2)

/-- Each member of the first list has one in the second that it is related to. -/
theorem exists_of_sublistForall₂ {α β : Type} {R : α → β → Prop} {as : List α} {bs : List β}
    (h : List.SublistForall₂ R as bs) : ∀ a ∈ as, ∃ b ∈ bs, R a b := by
  induction h with
  | nil => simp
  | cons hab _ ih =>
    refine List.forall_mem_cons.2 ⟨⟨_, List.mem_cons_self .., hab⟩, fun a ha => ?_⟩
    obtain ⟨b, hb, hr⟩ := ih a ha
    exact ⟨b, List.mem_cons_of_mem _ hb, hr⟩
  | cons_right _ ih =>
    intro a ha
    obtain ⟨b, hb, hr⟩ := ih a ha
    exact ⟨b, List.mem_cons_of_mem _ hb, hr⟩

namespace Html
open Slots (Agrees Shaped assemble assembleBelow)
open Node (slotsAt slotsBelow sizes Remains)

variable {n m c d : Node} {t : Slots} {o : Options} {fs : List (Nat × Fragment)} {i j k l x : Nat} {name : String}
  {opening closing : Span} {s s' : Slot}

/-! ### Where a subtree stands -/

/-- The subtree `c` of `n` has the places from `k` on. -/
structure StandsAt (n : Node) (k : Nat) (c : Node) : Prop where
  mem : c ∈ n.nodes
  slots : ∃ p, Agrees (· = ·) n.slots k (slotsAt p k c)

theorem standsAt_self (n : Node) : StandsAt n 0 n := ⟨n.self_mem_nodes, none, Slots.agrees_slots n⟩

theorem StandsAt.slot (h : StandsAt n k c) :
    ∃ p, n.slots[k]? =
      some ⟨{ c with children := none }, p, Node.starts (k + 1) c.childList, c.children.isSome, false⟩ := by
  obtain ⟨p, hp⟩ := h.slots
  rw [Node.slotsAt_eq] at hp
  obtain ⟨s, hs, rfl⟩ := hp.head
  exact ⟨p, hs⟩

/-- The last child of a node has its place within that of the node. -/
theorem StandsAt.last (h : StandsAt n k c) (hd : d ∈ c.childList.getLast?) :
    ∃ l s, k < l ∧ l < k + c.size ∧ n.slots[l]? = some s ∧ s.node.span = d.span ∧ s.parent = some k := by
  obtain ⟨p, hp⟩ := h.slots
  rw [Node.slotsAt_eq] at hp
  obtain ⟨cs, hcs⟩ := List.getLast?_eq_some_iff.1 hd
  have hbelow := hp.tail
  rw [hcs, Node.slotsBelow_append] at hbelow
  have hright := hbelow.right
  rw [Node.length_slotsBelow, slotsBelow, slotsBelow, List.append_nil, Node.slotsAt_eq] at hright
  obtain ⟨s, hs, rfl⟩ := hright.head
  have hsize : c.size = 1 + (sizes cs + (d.size + 0)) := by
    rw [Node.size_eq, hcs, Node.sizes_append, sizes, sizes]
  have hpos := d.size_pos
  exact ⟨_, _, by omega, by omega, hs, rfl, rfl⟩

/-! ### What is kept along the pairs -/

/-- All nodes are what they were but for the values of literals, and below each list and table that is left a node is
left. -/
structure Spared (n : Node) (t : Slots) : Prop where
  node : ∀ (k : Nat) (s : Slot), n.slots[k]? = some s → ∃ a : Slot, t[k]? = some a ∧ a.node.kind = s.node.kind ∧ a.node.data = s.node.data ∧
    (s.node.kind ≠ .html → a.node.value = s.node.value)
  inhabited : ∀ k c, StandsAt n k c → c.kind.member?.isSome = true → t.isRemoved k = false →
    ∃ l, k < l ∧ l < k + c.size ∧ t.isRemoved l = false

theorem spared_slots (hl : n.Listed) : Spared n n.slots where
  node k s hs := ⟨s, hs, rfl, rfl, fun _ => rfl⟩
  inhabited k c hc hm _ := by
    obtain ⟨-, -, b, hb, -⟩ := (hl c hc.mem).ends hm
    obtain ⟨l, s, hkl, hlc, -⟩ := hc.last hb
    exact ⟨l, hkl, hlc, Slots.isRemoved_slots n l⟩

/-- Joining a pair that opens before a list or a table, and leaves this, leaves the last member too. -/
theorem Joint.exists_live_after (h : Joint n fs t k x i j name opening closing s s') (hl : n.Listed)
    (hc : StandsAt n l c) (hm : c.kind.member?.isSome = true) (hil : i < l) (hlive : (merge t i j).isRemoved l = false) :
    ∃ m, l < m ∧ m < l + c.size ∧ (merge t i j).isRemoved m = false := by
  obtain ⟨-, -, b, hb, e, -, q, hq, hspan⟩ := (hl c hc.mem).ends hm
  obtain ⟨m, r, hlm, hmc, hr, hrspan, hrparent⟩ := hc.last hb
  have hrspan : r.node.span = some q := hrspan.trans hq
  refine ⟨m, hlm, hmc, ?_⟩
  obtain ⟨p, hslot⟩ := hc.slot
  obtain ⟨a, a', ha, ha', hshape, hmerged⟩ := h.slot hslot
  obtain ⟨b, b', hb, hb', hshape', hmerged'⟩ := h.slot hr
  have hsame : a = _ := Option.some.inj (ha.symm.trans ((h.inOrder.same l (Nat.le_of_lt hil)).trans hslot))
  have hsame' : b = r := Option.some.inj (hb.symm.trans ((h.inOrder.same m (by omega)).trans hr))
  have hbelow := h.inOrder.live m (by omega)
  rw [Slots.isRemoved_eq hb, Bool.or_eq_false_iff] at hbelow
  rw [Slots.isRemoved_eq hb', Bool.or_eq_false_iff, hmerged'.removed, hbelow.1, hmerged'.parent, hsame', hrparent,
    Option.any_some, hlive, Bool.and_false, hrspan]
  refine ⟨?_, rfl⟩
  -- if the last member stood between the tags, then so would the whole
  by_contra hbetween
  obtain ⟨-, hmj, -, hstop⟩ : i < m ∧ m ≤ j ∧ opening.stop ≤ q.start ∧ q.stop ≤ closing.stop := by
    simpa [StandsBetween] using hbetween
  have hstart := h.opening_stop_le hslot hspan hil
  have hremoved : (merge t i j).isRemoved l = true := by
    rw [Slots.isRemoved_eq ha', hmerged.removed, hsame, hspan]
    have hlj : l ≤ j := by omega
    simp [StandsBetween, hil, hlj, hstart, hstop]
  rw [hlive] at hremoved
  cases hremoved

theorem Spared.join (h : Spared n t) (hl : n.Listed) (hj : Joint n fs t k x i j name opening closing s s') :
    Spared n (merge t i j) where
  node l r hr := by
    obtain ⟨a, ha, hkind, hdata, hvalue⟩ := h.node l r hr
    obtain ⟨a', ha', hkind', hdata', -, hvalue'⟩ := hj.node ha
    refine ⟨a', ha', hkind'.trans hkind, hdata'.trans hdata, fun hne => ?_⟩
    have hli : l ≠ i := by
      rintro rfl
      obtain rfl := Option.some.inj (hr.symm.trans hj.first)
      exact hne (fragmentOf_eq_some hj.firstRead).1
    exact (hvalue' hli).trans (hvalue hne)
  inhabited l c hc hm hlive := by
    rcases Nat.lt_trichotomy l i with hli | rfl | hil
    · by_cases hin : i < l + c.size
      · -- the opening tag itself stays
        refine ⟨i, hli, hin, ?_⟩
        rw [hj.isRemoved_merge_of_le (Nat.le_refl i)]
        exact hj.inOrder.live i (Nat.le_refl i)
      · rw [hj.isRemoved_merge_of_le (Nat.le_of_lt hli)] at hlive
        obtain ⟨m, hlm, hmc, hm⟩ := h.inhabited l c hc hm hlive
        exact ⟨m, hlm, hmc, by rw [hj.isRemoved_merge_of_le (by omega), hm]⟩
    · -- the opening tag is no list
      obtain ⟨p, hslot⟩ := hc.slot
      obtain rfl := Option.some.inj (hslot.symm.trans hj.first)
      rw [show c.kind = .html from (fragmentOf_eq_some hj.firstRead).1] at hm
      cases hm
    · exact hj.exists_live_after hl hc hm hil hlive

/-! ### What is left in the end -/

theorem remains_assembleBelow {p : Nat} (cs : List Node) (hst : Agrees (· = ·) n.slots j (slotsBelow p j cs))
    (ht : t.Shaped j (slotsBelow p j cs)) (hmem : ∀ c ∈ cs, c ∈ n.nodes)
    (ih : ∀ c ∈ cs, ∀ k, StandsAt n k c → t.Shaped k (slotsAt (some p) k c) → ∀ m, assemble t k c = some m → Remains m c) :
    List.SublistForall₂ Remains (assembleBelow t j cs) cs := by
  induction cs generalizing j with
  | nil => exact .nil
  | cons c r ihr =>
    obtain ⟨hc, hmem⟩ := List.forall_mem_cons.1 hmem
    obtain ⟨ihc, ih⟩ := List.forall_mem_cons.1 ih
    have hrest := ihr hst.later ht.later hmem ih
    rw [assembleBelow]
    cases ha : assemble t j c with
    | none => exact .cons_right hrest
    | some m => exact .cons (ihc j ⟨hc, _, hst.left⟩ ht.left m ha) hrest

theorem Spared.remains (h : Spared n t) (hl : n.Listed) (hc : StandsAt n k c) {p : Option Nat}
    (ht : t.Shaped k (slotsAt p k c)) (hp : ∀ q ∈ p, q < k → t.isRemoved q = false) (ha : assemble t k c = some m) :
    Remains m c := by
  induction c using Node.induct generalizing k p m with
  | step c ih =>
    obtain ⟨a, hat, hself, hm⟩ := Slots.assemble_eq_some.1 ha
    obtain ⟨r, hslot⟩ := hc.slot
    obtain ⟨a', hat', hkind, hdata, hvalue⟩ := h.node k _ hslot
    obtain rfl : a = a' := Option.some.inj (hat.symm.trans hat')
    have hlive : t.isRemoved k = false := by
      obtain ⟨a', ha', hparent, -⟩ := (Node.slotsAt_eq p k c ▸ ht).head
      obtain rfl := Option.some.inj (hat.symm.trans ha')
      rw [Slots.isRemoved_eq hat, hself, hparent]
      cases p with
      | none => rfl
      | some q => by_cases hlt : q < k <;> simp [hlt, hp q rfl]
    have hrow : List.SublistForall₂ Remains m.childList c.childList := by
      have hchildren : m.childList = assembleBelow t (k + 1) c.childList := Slots.childList_of_assemble ha
      obtain ⟨r, hagree⟩ := hc.slots
      rw [Node.slotsAt_eq] at hagree ht
      rw [hchildren]
      refine remains_assembleBelow c.childList hagree.tail ht.tail (fun d hd => Node.mem_nodes_of_child hc.mem hd) ?_
      intro d hd l hl hshape m hm
      exact ih d hd hl hshape (fun q hq _ => Option.some.inj hq ▸ hlive) hm
    refine .node (hm ▸ hkind) (hm ▸ hdata) (fun hne => hm ▸ hvalue hne) hrow fun kind hkind => ?_
    have hne : m.childList ≠ [] := by
      obtain ⟨l, hkl, hlc, hl⟩ := h.inhabited k c hc (Option.isSome_of_mem hkind) hlive
      have hnodes := Slots.nodes_assemble c p k ht hp
      have hnode : t.liveNode? k = some a.node := by simp [Slots.liveNode?, hlive, hat]
      rw [ha, Option.elim_some, Node.size_eq, Slots.liveNodes_one_add, Node.nodes_eq, hnode] at hnodes
      intro hnil
      rw [hnil] at hnodes
      obtain ⟨e, he, -⟩ := ht (l - k) _ (List.getElem?_eq_getElem (by rw [Node.length_slotsAt]; omega))
      rw [show k + (l - k) = l by omega] at he
      rw [Node.size_eq] at hlc
      exact Slots.liveNodes_ne_nil he hl hkl (by omega) (List.cons.inj hnodes).2.symm
    obtain ⟨x, hx⟩ := List.exists_mem_of_ne_nil _ hne
    obtain ⟨y, hy, hxy⟩ := exists_of_sublistForall₂ hrow x hx
    exact ⟨x, hx, hxy.kind_eq.trans ((hl c hc.mem).members kind hkind y hy)⟩

/-- Joining the tags of a well-positioned tree leaves a member in each list and each table. -/
theorem remains_of_reconcile (hn : n.WellPositioned) (hl : n.Listed) (h : reconcile o n = .ok m) : Remains m n := by
  simp only [reconcile] at h
  split at h
  · simp at h
  · next fs hfs =>
    obtain ⟨b, l, u, hu, hio, -, -, hspared⟩ := pairFrom_induct (P := fun _ => Spared n) (o := o) hn hfs
      (fun _ _ _ _ h => h) (fun hj h => h.join hl hj) (inOrder_slots n) (aligned_slots n)
      (fun _ _ _ _ => Nat.zero_le _) (spared_slots hl)
    rw [← Except.ok.inj h, hu]
    exact hspared.remains hl (standsAt_self n) hio.shaped (by simp) (Slots.toNode_eq_assemble hio.shaped hio.root)

end Html

/-! ### Wrapping on both sides -/

namespace Node.Remains
open Html
variable {m n : Node} {k : Kind}

theorem paragraphOf (h : Remains m n) : Remains (Html.paragraphOf m) (Html.paragraphOf n) :=
  .node rfl rfl (fun _ => rfl) (.cons h .nil) (by simp [Html.paragraphOf, Node.parent, Kind.member?])

theorem wrapUnder (h : Remains m n) (hw : Remains (wrapStray m) (wrapStray n)) :
    Remains (Html.wrapUnder k m) (Html.wrapUnder k n) := by
  unfold Html.wrapUnder
  rw [h.kind_eq]
  split
  · exact hw.paragraphOf
  · exact hw

theorem wrapStray (h : Remains m n) : Remains (Html.wrapStray m) (Html.wrapStray n) := by
  induction n using Node.induct generalizing m with
  | step n ih =>
    obtain ⟨hkind, hdata, hvalue, hchildren, hinhabited⟩ := h
    rw [wrapStray_eq m, wrapStray_eq n]
    refine .node hkind hdata hvalue ?_ fun k hk => ?_
    · rw [← wrapStray_eq, ← wrapStray_eq, childList_wrapStray, childList_wrapStray, hkind]
      exact sublistForall₂_map hchildren fun c hc a ha => ha.wrapUnder (ih c hc ha)
    · -- no member of a list or a table is a literal, so none is wrapped
      obtain ⟨c, hc, hck⟩ := hinhabited k hk
      rw [← wrapStray_eq, childList_wrapStray]
      refine ⟨_, List.mem_map_of_mem hc, ?_⟩
      rcases wrapUnder_cases m.kind c with ⟨heq, -⟩ | ⟨-, hhtml, -⟩
      · rw [heq, kind_wrapStray, hck]
      · exact absurd (hck.symm.trans hhtml) (Kind.member?_ne_html hk)

end Node.Remains
end RichDoc
