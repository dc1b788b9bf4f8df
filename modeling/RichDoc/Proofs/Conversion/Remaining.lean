import RichDoc.Proofs.Catalog.Phrasing
import RichDoc.Proofs.Conversion.Loading
import RichDoc.Proofs.Grammar.Valid
import RichDoc.Proofs.Html.Remaining

/-!
# Loading what joining leaves

A tree that loads still loads when subtrees are left out and its literals have other text, if each list and each table
keeps a member (`loads_of_remains`): all that a node type asks of its content is what each part may be and, in lists
and tables, that there is one. So joining tags spoils a document in one way only, by taking the root with it, and this
takes a tree whose own root is a mark (`documentOf_wrapStray_of_reconcile`).
-/

namespace RichDoc

/-- What a node type asks of a part of its content. -/
def Document.face (d : Document) : String × List Mark := (d.type, d.marks)

namespace Catalog
open Document Conversion Html
open Node (Remains)

variable {x : NodeConverter} {y : MarkConverter} {m n : Node} {d e : Document} {cs cs' ds content content' : List Document}
  {given : Data} {r : Role}

/-! ### Conversions use no context -/

theorem textOf_empty {g : Grammar} {ms : List Mark} (hv : n.value.getD "" = "") : textOf g n ms = pure [] := by
  unfold textOf
  cases h : n.value with
  | none => rfl
  | some v => simp [show v = "" by simpa [h] using hv]

theorem content_of_takes (h : Takes n cs r content) : r.content standardGrammar n cs = pure content := by
  cases h with
  | container => rfl
  | leaf => rfl
  | empty hv => exact textOf_empty hv
  | literal hv hn => exact textOf_plain (by rfl) hv hn (by simp)

/-- What may become of a node always does. -/
theorem downNode_of_loads (h : Loads n cs ds) : standard.downNode n cs = pure ds := by
  cases h with
  | node hx hk hc h =>
    rw [downNode_eq hx hk.symm, content_of_takes hc, pure_bind, one, h]
    rfl
  | mark hy hk has h =>
    rw [downNode_mark hy hk.symm, has]
    dsimp only
    rw [h]
    exact markAll_eq (Grammar.mark_mark h).1 cs
  | empty hk hv =>
    rcases hk with hk | hk
    · rw [downNode_text hk, textOf_empty hv]
    · rw [downNode_code hk, hv]
      rfl
  | text hk hv hn => rw [downNode_text hk, textOf_plain (by rfl) hv hn (by simp), List.foldl_nil]
  | code hk hv hn hm =>
    rw [downNode_code hk, hn, hm, if_neg (by simpa using hv)]
    exact textOf_plain (by rfl) hv hn (by simpa using ⟨_, _, hm⟩)

/-! ### The content of a node type -/

/-- A node type has no content, or any number of parts that go by a name, of which lists and tables have at least one. -/
theorem content_cases {t : NodeType} (hx : x ∈ nodeConverters) (ht : standardGrammar.nodeType? x.type = some t) :
    t.content = none ∨ ∃ name least, t.content = some (.repeated (.name name) least none) ∧
      (0 < least.toNat → least = 1 ∧ x.kind.member?.isSome = true) := by
  simp only [nodeConverters, List.mem_cons, List.not_mem_nil, or_false] at hx
  rcases hx with rfl | rfl | rfl | rfl | rfl | rfl | rfl | rfl | rfl | rfl | rfl | rfl | rfl | rfl
  all_goals
    cases ht
    first
    | exact .inl rfl
    | exact .inr ⟨_, _, rfl, by decide⟩

/-- A node is made as well of other content, if its parts are what some of the parts were and lists and tables have
one. -/
theorem node_of_faces (hx : x ∈ nodeConverters) (h : standardGrammar.node x.type given content = .ok e)
    (hall : (content'.map face).Sublist (content.map face)) (hne : x.kind.member?.isSome = true → content' ≠ []) :
    ∃ e', standardGrammar.node x.type given content' = .ok e' ∧ e'.face = e.face := by
  obtain ⟨t, a, ht, hty, ha, hc, hm, rfl⟩ := Grammar.node_eq_ok.1 h
  have hmem {d : Document} (hd : d ∈ content') : ∃ d' ∈ content, d'.face = d.face :=
    List.mem_map.1 (hall.subset (List.mem_map_of_mem hd))
  refine ⟨_, Grammar.node_eq_ok.2 ⟨t, a, ht, hty, ha, ?_, ?_, rfl⟩, rfl⟩
  · rw [Grammar.checkContent_eq_ok] at hc ⊢
    rcases content_cases hx ht with hnone | ⟨name, least, hsome, hleast⟩
    · obtain rfl : content = [] := hc.1 (by simp [NodeType.isLeaf, hnone])
      have hnil : content' = [] := List.map_eq_nil_iff.1 (List.sublist_nil.1 hall)
      simp [hnil, hnone]
    · simp only [NodeType.isLeaf, hsome, Option.isNone_some, Bool.false_eq_true, false_implies, true_and,
        Option.mem_some_iff, forall_eq', Content.accepts_repeated_name, List.length_map, List.forall_mem_map] at hc ⊢
      obtain ⟨-, hfits, hnames⟩ := hc
      have hlength : content'.length ≤ content.length := by simpa using hall.length_le
      refine ⟨?_, Nat.lt_of_le_of_lt hlength hfits, fun d hd => ?_⟩
      · rcases Nat.eq_zero_or_pos least.toNat with hzero | hpos
        · rw [hzero]
          exact Nat.zero_le _
        · obtain ⟨rfl, hmember⟩ := hleast hpos
          exact List.length_pos_iff.2 (hne hmember)
      · obtain ⟨d', hd', hface⟩ := hmem hd
        rw [show d.type = d'.type from congrArg Prod.fst hface.symm]
        exact hnames d' hd'
  · rw [Grammar.checkMarks_eq_ok] at hm ⊢
    intro d hd
    obtain ⟨d', hd', hface⟩ := hmem hd
    rw [show d.marks = d'.marks from congrArg Prod.snd hface.symm]
    exact hm d' hd'

/-- A literal is made of any text. -/
theorem node_of_plain (hx : x ∈ nodeConverters) (hr : x.role = .literal)
    (h : standardGrammar.node x.type given content = .ok e) (hone : content'.length ≤ 1)
    (hall : ∀ d ∈ content', d.face = ("text", [])) :
    ∃ e', standardGrammar.node x.type given content' = .ok e' ∧ e'.face = e.face := by
  obtain ⟨t, a, ht, hty, ha, -, -, rfl⟩ := Grammar.node_eq_ok.1 h
  obtain ⟨hcontent, -⟩ := (role_spec hx ht).2 hr
  refine ⟨_, Grammar.node_eq_ok.2 ⟨t, a, ht, hty, ha, ?_, ?_, rfl⟩, rfl⟩
  · rw [Grammar.checkContent_eq_ok]
    simp only [NodeType.isLeaf, hcontent, Option.isNone_some, Bool.false_eq_true, false_implies, true_and,
      Option.mem_some_iff, forall_eq', star, Content.accepts_repeated_name, List.forall_mem_map, List.length_map]
    refine ⟨Nat.zero_le _, Nat.lt_of_le_of_lt hone (by decide), fun d hd => ?_⟩
    rw [show d.type = "text" from congrArg Prod.fst (hall d hd)]
    simp [Grammar.isA]
  · rw [Grammar.checkMarks_eq_ok]
    intro d hd
    simp [show d.marks = [] from congrArg Prod.snd (hall d hd)]

/-! ### From the children to the node -/

theorem attrs_congr (hx : x ∈ nodeConverters) (h : m.data = n.data) : x.attrs m = x.attrs n := by
  simp only [nodeConverters, List.mem_cons, List.not_mem_nil, or_false] at hx
  rcases hx with rfl | rfl | rfl | rfl | rfl | rfl | rfl | rfl | rfl | rfl | rfl | rfl | rfl | rfl <;> simp only [h]

theorem markAttrs_congr (hy : y ∈ markConverters) (h : m.data = n.data) : y.attrs m = y.attrs n := by
  simp only [markConverters, List.mem_cons, List.not_mem_nil, or_false] at hy
  rcases hy with rfl | rfl | rfl | rfl <;> simp only [h]

/-- A mark on what is left is what is left with the mark on it. -/
theorem faces_map_withMark {mark : Mark} (h : (cs'.map face).Sublist (cs.map face)) :
    ((cs'.map (standardGrammar.withMark mark)).map face).Sublist ((cs.map (standardGrammar.withMark mark)).map face) := by
  have hface : face ∘ standardGrammar.withMark mark =
      (fun f => (f.1, (standardGrammar.withMark mark ⟨f.1, ∅, [], none, f.2⟩).marks)) ∘ face := rfl
  rw [List.map_map, List.map_map, hface, ← List.map_map, ← List.map_map]
  exact h.map _

/-- The literal of a node is text without marks, or nothing. -/
theorem exists_takes_literal (n : Node) (cs : List Document) :
    ∃ content, Takes n cs .literal content ∧ content.length ≤ 1 ∧ ∀ d ∈ content, d.face = ("text", []) := by
  by_cases hv : n.value.getD "" = ""
  · exact ⟨[], .empty hv, by simp, by simp⟩
  · obtain ⟨v, hn⟩ : ∃ v, n.value = some v := by
      cases h : n.value with
      | none => simp [h] at hv
      | some v => exact ⟨v, rfl⟩
    exact ⟨_, .literal (by simpa [hn] using hv) hn, by simp, by simp [face, Grammar.plain]⟩

/-- What becomes of a node becomes of what remains of it, as far as what remains of the children is concerned. -/
theorem exists_loads (h : Loads n cs ds) (hr : Remains m n) (hcs : (cs'.map face).Sublist (cs.map face))
    (hne : n.kind.member?.isSome = true → cs' ≠ []) :
    ∃ ds', Loads m cs' ds' ∧ (ds'.map face).Sublist (ds.map face) := by
  obtain ⟨hkind, hdata, hvalue, -⟩ := hr
  cases h with
  | @node x content e hx hk hc h =>
    have hmake : ∃ content', Takes m cs' x.role content' ∧ ∃ e',
        standardGrammar.node x.type (.ofList (x.attrs n)) content' = .ok e' ∧ e'.face = e.face := by
      cases hrole : x.role with
      | container =>
        rw [hrole] at hc
        cases hc
        exact ⟨cs', .container, node_of_faces hx h hcs fun hm => hne (hk ▸ hm)⟩
      | leaf =>
        rw [hrole] at hc
        cases hc
        exact ⟨[], .leaf, e, h, rfl⟩
      | literal =>
        obtain ⟨content', htakes, hone, hplain⟩ := exists_takes_literal m cs'
        exact ⟨content', htakes, node_of_plain hx hrole h hone hplain⟩
    obtain ⟨content', htakes, e', he', hface⟩ := hmake
    exact ⟨[e'], .node hx (hk.trans hkind.symm) htakes (by rw [attrs_congr hx hdata]; exact he'), by simp [hface]⟩
  | mark hy hk has h =>
    exact ⟨_, .mark hy (hk.trans hkind.symm) ((markAttrs_congr hy hdata).trans has) h, faces_map_withMark hcs⟩
  | empty hk hv =>
    have hm := hvalue (by rcases hk with hk | hk <;> simp [hk])
    exact ⟨[], .empty (by rwa [hkind]) (by rwa [hm]), by simp⟩
  | text hk hv hn =>
    exact ⟨_, .text (hkind.trans hk) hv ((hvalue (by simp [hk])).trans hn), List.Sublist.refl _⟩
  | code hk hv hn hm =>
    exact ⟨_, .code (hkind.trans hk) hv ((hvalue (by simp [hk])).trans hn) hm, List.Sublist.refl _⟩

/-- A node that stands for a node type becomes one node. -/
theorem ne_nil_of_loads (h : Loads n cs ds) (hx : x ∈ nodeConverters) (hk : x.kind = n.kind) : ds ≠ [] := by
  obtain ⟨htext, hcode, hmark⟩ := kind_ne hx
  cases h with
  | node => simp
  | mark hy hk' => exact absurd (hk.trans hk'.symm) (hmark _ hy)
  | empty hk' => rcases hk' with hk' | hk' <;> simp_all
  | text => simp
  | code => simp

theorem exists_converter_of_member {k l : Kind} (h : l ∈ k.member?) : ∃ x ∈ nodeConverters, x.kind = l := by
  unfold Kind.member? at h
  split at h <;> simp at h <;> simp [← h, nodeConverters]

/-- The node becomes documents that are some of those given, as far as other nodes ask. -/
def Leaves (m : Node) (ds : List Document) : Prop :=
  ∃ ds', standard.down m = pure ds' ∧ (ds'.map face).Sublist (ds.map face)

/-- What remains of a row becomes some of what the row becomes, and all that its members become is among it. -/
theorem downList_of_remains {ms ns : List Node} (h : List.SublistForall₂ Remains ms ns)
    (ih : ∀ n ∈ ns, ∀ m ds, Remains m n → Gives (standard.down n) ds → Leaves m ds)
    (hcs : Gives (standard.downList ns) cs) :
    ∃ cs', standard.downList ms = pure cs' ∧ (cs'.map face).Sublist (cs.map face) ∧
      ∀ m ∈ ms, ∃ ds, standard.down m = pure ds ∧ ds ⊆ cs' := by
  induction h generalizing cs with
  | nil => exact ⟨[], rfl, by simp, by simp⟩
  | @cons m n ms ns hmn hrest ihr =>
    obtain ⟨ds, es, rfl, hds, hes⟩ := Composition.gives_downList_cons hcs
    obtain ⟨hn, hns⟩ := List.forall_mem_cons.1 ih
    obtain ⟨ds', hds', hsub⟩ := hn m ds hmn hds
    obtain ⟨es', hes', hsub', hall⟩ := ihr hns hes
    refine ⟨ds' ++ es', ?_, ?_, List.forall_mem_cons.2 ⟨⟨ds', hds', List.subset_append_left ..⟩, fun c hc => ?_⟩⟩
    · rw [Composition.downList, hds', hes']
      rfl
    · rw [List.map_append, List.map_append]
      exact hsub.append hsub'
    · obtain ⟨fs, hfs, hin⟩ := hall c hc
      exact ⟨fs, hfs, List.subset_append_of_subset_right _ hin⟩
  | @cons_right n ms ns hrest ihr =>
    obtain ⟨ds, es, rfl, hds, hes⟩ := Composition.gives_downList_cons hcs
    obtain ⟨es', hes', hsub, hall⟩ := ihr (List.forall_mem_cons.1 ih).2 hes
    refine ⟨es', hes', ?_, hall⟩
    rw [List.map_append]
    exact hsub.trans (List.sublist_append_right ..)

/-- What remains of a tree that loads, loads. -/
theorem leaves_of_remains (hr : Remains m n) (h : Gives (standard.down n) ds) : Leaves m ds := by
  induction n using Node.induct generalizing m ds with
  | step n ih =>
    obtain ⟨cs, hcs, hnode⟩ := Composition.gives_down h
    have ⟨_, _, _, hchildren, hinhabited⟩ := hr
    obtain ⟨cs', hcs', hsub, hall⟩ := downList_of_remains hchildren (fun c hc m ds hm hd => ih c hc hm hd) hcs
    have hne : n.kind.member?.isSome = true → cs' ≠ [] := by
      intro hm hnil
      obtain ⟨k, hk⟩ := Option.isSome_iff_exists.1 hm
      obtain ⟨c, hc, hck⟩ := hinhabited k hk
      obtain ⟨es, hes, hin⟩ := hall c hc
      obtain ⟨below, -, hload⟩ := Composition.gives_down (hes ▸ gives_pure.2 rfl : Gives (standard.down c) es)
      obtain ⟨x, hx, hxk⟩ := exists_converter_of_member hk
      refine ne_nil_of_loads (loads_of_gives hload) hx (hxk.trans hck.symm) (List.subset_nil.1 ?_)
      exact hnil ▸ hin
    obtain ⟨ds', hloads, hfaces⟩ := exists_loads (loads_of_gives hnode) hr hsub hne
    exact ⟨ds', by rw [Composition.down_eq, hcs', pure_bind, downNode_of_loads hloads], hfaces⟩

/-! ### Where the root is -/

/-- The node is a root, or one with marks only around it. -/
inductive HoldsRoot : Node → Prop where
  | root {n : Node} (h : n.kind = .root) : HoldsRoot n
  | mark {n c : Node} (h : n.mark?.isSome = true) (hc : c ∈ n.childList) (hr : HoldsRoot c) : HoldsRoot n

theorem holdsRoot_of_unmarked (h : n.mark?.isSome = false) : HoldsRoot n ↔ n.kind = .root := by
  constructor
  · rintro (hk | ⟨hm, -⟩)
    · exact hk
    · simp [h] at hm
  · exact .root

theorem holdsRoot_of_marked (h : n.mark?.isSome = true) : HoldsRoot n ↔ ∃ c ∈ n.childList, HoldsRoot c := by
  constructor
  · rintro (hk | ⟨-, hc, hr⟩)
    · simp [Node.mark?, hk, Kind.mark?] at h
    · exact ⟨_, hc, hr⟩
  · rintro ⟨c, hc, hr⟩
    exact .mark h hc hr

/-- Wrapping wraps nothing below a mark. -/
theorem holdsRoot_wrapStray (n : Node) : HoldsRoot (wrapStray n) ↔ HoldsRoot n := by
  induction n using Node.induct with
  | step n ih =>
    have hmark : (wrapStray n).mark? = n.mark? := by rw [wrapStray_eq]; rfl
    cases hm : n.mark?.isSome with
    | false => rw [holdsRoot_of_unmarked (by rw [hmark, hm]), holdsRoot_of_unmarked hm, kind_wrapStray]
    | true =>
      have hholds : n.kind.holdsPhrasing = true := by
        revert hm
        unfold Node.mark?
        cases n.kind <;> simp [Kind.mark?, Kind.holdsPhrasing]
      rw [holdsRoot_of_marked (by rw [hmark, hm]), holdsRoot_of_marked hm, childList_wrapStray]
      simp only [List.mem_map, exists_exists_and_eq_and, wrapUnder_of_holds hholds]
      exact exists_congr fun c => and_congr_right fun hc => ih c hc

theorem not_holdsRoot_of_text (hk : n.kind = .text ∨ n.kind = .inlineCode) : ¬ HoldsRoot n := by
  rw [holdsRoot_of_unmarked (by simp [mark?_of_kind hk])]
  rcases hk with hk | hk <;> simp [hk]

theorem exists_doc_row {ns : List Node} (h : Gives (standard.downList ns) cs)
    (ih : ∀ n ∈ ns, ∀ ds, Gives (standard.down n) ds → ((∃ d ∈ ds, d.type = "doc") ↔ HoldsRoot n)) :
    (∃ d ∈ cs, d.type = "doc") ↔ ∃ n ∈ ns, HoldsRoot n := by
  induction ns generalizing cs with
  | nil =>
    rw [Composition.downList, gives_pure] at h
    simp [h]
  | cons n r ihr =>
    obtain ⟨ds, es, rfl, hds, hes⟩ := Composition.gives_downList_cons h
    obtain ⟨hn, hr⟩ := List.forall_mem_cons.1 ih
    simp only [List.mem_append, List.mem_cons, or_and_right, exists_or, exists_eq_left]
    exact or_congr (hn ds hds) (ihr hes hr)

/-- Whole documents come from roots. -/
theorem exists_doc_iff (h : Gives (standard.down n) ds) : (∃ d ∈ ds, d.type = "doc") ↔ HoldsRoot n := by
  induction n using Node.induct generalizing ds with
  | step n ih =>
    obtain ⟨cs, hcs, hnode⟩ := Composition.gives_down h
    cases loads_of_gives hnode with
    | @node x content e hx hk hc hmade =>
      rw [holdsRoot_of_unmarked (by simp [mark?_of_node hx hk]), ← hk, ← type_eq_doc_iff hx, ← (Grammar.node_node hmade).2.1]
      simp
    | @mark y as m hy hk has hmade =>
      rw [holdsRoot_of_marked (isSome_mark?_iff.2 ⟨_, hy, hk⟩), ← exists_doc_row hcs fun c hc ds hd => ih c hc hd]
      simp
    | empty hk hv => simpa using not_holdsRoot_of_text hk
    | text hk hv hn => simpa [Grammar.plain] using not_holdsRoot_of_text (.inl hk)
    | code hk hv hn hm => simpa [Grammar.plain] using not_holdsRoot_of_text (.inr hk)

/-- A convertible tree stays so when its tags are joined, unless its own root is a mark and the root below goes with
what stands between two tags. -/
theorem documentOf_wrapStray_of_reconcile {c : Composition} {t t' : Node}
    (hc : library.compose (places ["gfm", "html"]) = .ok c) (ht : t.WellPositioned) (hl : t.Listed)
    (hd : c.documentOf (wrapStray t) = .ok d) (h : reconcile {} t = .ok t') :
    ((∃ d', c.documentOf (wrapStray t') = .ok d') ↔ HoldsRoot t') ∧
      (t.kind = .root → ∃ d', c.documentOf (wrapStray t') = .ok d') := by
  obtain rfl : standard = c := Except.ok.inj (compose_standard.symm.trans hc)
  have hremains := remains_of_reconcile ht hl h
  obtain ⟨ds, hds, hfaces⟩ := leaves_of_remains hremains.wrapStray (Composition.gives_of_documentOf hd).1
  have htop {e : Document} : standard.grammar.topType?.map NodeType.name = some e.type ↔ e.type = "doc" := by
    rw [show standard.grammar.topType?.map NodeType.name = some "doc" by rfl]
    simp [eq_comm]
  have hiff : (∃ d', standard.documentOf (wrapStray t') = .ok d') ↔ HoldsRoot t' := by
    rw [← holdsRoot_wrapStray]
    constructor
    · rintro ⟨d', hd'⟩
      obtain ⟨hgives, htype⟩ := Composition.gives_of_documentOf hd'
      exact (exists_doc_iff hgives).1 ⟨d', by simp, htop.1 htype⟩
    · intro hroot
      obtain ⟨d', hd', htype⟩ := (exists_doc_iff (hds ▸ gives_pure.2 rfl)).2 hroot
      have hlen : ds.length ≤ 1 := by simpa using hfaces.length_le
      obtain ⟨e, rfl⟩ := List.length_eq_one_iff.1 (Nat.le_antisymm hlen (List.length_pos_of_mem hd'))
      obtain rfl := List.mem_singleton.1 hd'
      exact ⟨d', Composition.documentOf_of_down hds (htop.2 htype)⟩
  exact ⟨hiff, fun hk => hiff.2 (.root (hremains.kind_eq.trans hk))⟩

/-- A tag that is opened in one item of a list and closed behind the list. -/
def outOfList : Node :=
  (Node.parent .root [
    (Node.parent .list [
      (Node.parent .listItem [
        (Node.parent .paragraph [
          (Node.literal .html "<b>").placed 2 5, (Node.literal .text "x").placed 5 6]).placed 2 6]).placed 0 6,
      (Node.parent .listItem [
        (Node.parent .paragraph [(Node.literal .text "y").placed 9 10]).placed 9 10]).placed 7 10]).placed 0 10,
    (Node.parent .paragraph [
      (Node.literal .html "</b>").placed 12 16, (Node.literal .text "z").placed 16 17]).placed 12 17]).placed 0 17

/-- The same with the tags joined: the list has one item left. -/
def joinedOutOfList : Node :=
  (Node.parent .root [
    (Node.parent .list [
      (Node.parent .listItem [
        (Node.parent .paragraph [(Node.literal .html "<b>xy</b>").placed 2 16]).placed 2 16]).placed 0 16]).placed 0 16,
    (Node.parent .paragraph [(Node.literal .text "z").placed 16 17]).placed 12 17]).placed 0 17

theorem documentOf_joinedOutOfList :
    outOfList.WellPositioned ∧ outOfList.Listed ∧ reconcile {} outOfList = .ok joinedOutOfList ∧
      ∃ d, standard.documentOf (wrapStray joinedOutOfList) = .ok d := by
  have ht : outOfList.WellPositioned := by decide
  have hl : outOfList.Listed := by decide
  have h : reconcile {} outOfList = .ok joinedOutOfList := by decide +kernel
  obtain ⟨d, hd⟩ : ∃ d, standard.documentOf (wrapStray outOfList) = .ok d := exists_of_toBool (by decide +kernel)
  exact ⟨ht, hl, h, (documentOf_wrapStray_of_reconcile compose_standard ht hl hd h).2 rfl⟩

/-- A root under a mark, between tags that stand under text without a value. -/
def markedRoot : Node :=
  (Node.parent .emphasis [
    (Node.parent .text [(Node.literal .html "<b>").placed 0 3]).placed 0 3,
    (Node.parent .root []).placed 3 4,
    (Node.parent .text [(Node.literal .html "</b>").placed 4 8]).placed 4 8]).placed 0 8

/-- The same with the tags joined. -/
def joinedMarkedRoot : Node :=
  (Node.parent .emphasis [
    (Node.parent .text [(Node.literal .html "<b></b>").placed 0 8]).placed 0 8]).placed 0 8

/-- Joining two tags can take the only root of a tree that is a mark. -/
theorem not_forall_documentOf_wrapStray : ¬ ∀ (c : Composition) (t t' : Node) (d : Document),
    library.compose (places ["gfm", "html"]) = .ok c → t.WellPositioned → t.Listed →
    c.documentOf (wrapStray t) = .ok d → reconcile {} t = .ok t' →
    ∃ d', c.documentOf (wrapStray t') = .ok d' := by
  intro h
  have hload : standard.documentOf (wrapStray markedRoot) = .ok ⟨"doc", ∅, [], none, [⟨"em", ∅⟩]⟩ := by decide +kernel
  have hjoin : reconcile {} markedRoot = .ok joinedMarkedRoot := by decide +kernel
  have hfail : standard.documentOf (wrapStray joinedMarkedRoot) = .error (.convert (.rootMismatch "doc" 0)) := by
    decide +kernel
  obtain ⟨d, hd⟩ := h standard _ _ _ compose_standard (by decide) (by decide) hload hjoin
  rw [hfail] at hd
  cases hd

end Catalog
end RichDoc
