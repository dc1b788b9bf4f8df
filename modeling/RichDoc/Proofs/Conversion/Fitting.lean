import RichDoc.Proofs.Catalog.Phrasing
import RichDoc.Proofs.Conversion.Loading

/-!
# The nests of tree nodes

A tree node has a nest of its own, made of the marks that it and the nodes below it stand for (`Fits`). No other
nest gives the shape of the node (`Fits.only`), and grouping gives this one exactly if the node is rightly nested.
-/

namespace RichDoc
namespace Catalog
open Document Conversion

/-- The documents carry the marks of the lists. -/
def Carry : List Document → List (List Mark) → Prop := List.Forall₂ fun d ms => ∀ m, m ∈ d.marks ↔ m ∈ ms

/-- A nest whose leaves become nodes that stand for no mark. -/
def Renders (x : Nest) : Prop :=
  x.Forall (fun e => (∃ k, standard.up e = pure [k] ∧ k.mark? = none ∧ k.kind ≠ .inlineCode) ∧ e.marks = []) MadeOpened

/-- The nest of a tree node: its leaves carry the marks over the leaves of the node, it is the only nest that gives
the shape of the node, and grouping gives it exactly if the node is rightly nested. -/
structure Fits (n : Node) (x : Nest) : Prop where
  carry : Carry (x.docs standardGrammar) n.marksOver
  nonempty : n.marksOver ≠ []
  shape : ∃ k, standard.render x = pure [k] ∧
    (x.Forall (·.marks = []) (Nest.Opened standardGrammar) ∧ k.shape = n.shape ↔ ∀ e ∈ n.nodes, Nested e)
  only : ∀ y k, Renders y → y.docs standardGrammar = x.docs standardGrammar → standard.render y = pure [k] →
    k.shape = n.shape → y = x

variable {d : Document} {ds : List Document} {ms : List Mark} {l : List (List Mark)} {m : Mark} {n k : Node}
  {ns ks : List Node} {x y : Nest} {xs ys : List Nest}

namespace Carry

theorem length_eq (h : Carry ds l) : ds.length = l.length := List.Forall₂.length_eq h

theorem all_iff (h : Carry ds l) : (∀ d ∈ ds, m ∈ d.marks) ↔ ∀ ms ∈ l, m ∈ ms := by
  induction h with
  | nil => simp
  | cons hd _ ih => simp [hd m, ih]

theorem head_iff (h : Carry ds l) : (∀ d ∈ ds.head?, m ∉ d.marks) ↔ ∀ ms ∈ l.head?, m ∉ ms := by
  cases h with
  | nil => simp
  | cons hd _ => simp [hd m]

theorem ne_nil (h : Carry ds l) (hl : l ≠ []) : ds ≠ [] := by
  rintro rfl
  cases h
  exact hl rfl

theorem forall_marks {P : Mark → Prop} (h : Carry ds l) (hP : ∀ ms ∈ l, ∀ m ∈ ms, P m) :
    ∀ d ∈ ds, ∀ m ∈ d.marks, P m := by
  induction h with
  | nil => simp
  | cons hd _ ih =>
    obtain ⟨hms, hr⟩ := List.forall_mem_cons.1 hP
    exact List.forall_mem_cons.2 ⟨fun m hm => hms m ((hd m).1 hm), ih hr⟩

theorem withMark (h : Carry ds l) (hnew : ∀ ms ∈ l, ∀ n ∈ ms, n.type ≠ m.type) :
    Carry (ds.map (standardGrammar.withMark m)) (l.map (m :: ·)) := by
  induction h with
  | nil => exact .nil
  | @cons d ms r s hd _ ih =>
    refine .cons (fun n => ?_) (ih fun ms hms => hnew ms (List.mem_cons_of_mem _ hms))
    rw [Grammar.mem_marks_withMark, List.mem_cons, hd n]
    have := hnew ms (List.mem_cons_self ..) n
    tauto

end Carry

theorem carry_row (h : List.Forall₂ Fits ns xs) :
    Carry (Nest.docsBelow standardGrammar xs) (Node.marksOverBelow ns) := by
  induction h with
  | nil => exact .nil
  | cons hx _ ih => exact List.rel_append hx.carry ih

theorem nonempty_row (h : List.Forall₂ Fits ns xs) (hns : ns ≠ []) : Node.marksOverBelow ns ≠ [] := by
  cases h with
  | nil => exact absurd rfl hns
  | cons hx _ => simp [Node.marksOverBelow, hx.nonempty]

/-- What a row of nests must not go on with is what `Nested` excludes. -/
theorem row_iff (h : List.Forall₂ Fits ns xs) : Nest.Row standardGrammar xs ↔
    ns.IsChain fun a b => ∀ m ∈ Mark.common a.marksOver, ∀ ms ∈ b.marksOver.head?, m ∉ ms := by
  induction h with
  | nil => simp [Nest.Row]
  | @cons n x ns xs hx hr ih =>
    rw [Nest.Row, ih]
    cases hr with
    | nil => simp [Nest.Apart, Nest.docsBelow]
    | @cons n' x' ns xs hx' hr =>
      have hhead : (Nest.docsBelow standardGrammar (x' :: xs)).head? = (x'.docs standardGrammar).head? := by
        rw [Nest.docsBelow, List.head?_append_of_ne_nil _ (hx'.carry.ne_nil hx'.nonempty)]
      rw [List.isChain_cons_cons, Nest.Apart, hhead]
      simp only [Mark.mem_common hx.nonempty, hx.carry.all_iff, hx'.carry.head_iff]

/-- What makes a mark rightly opened around a row is what `Nested` asks for. -/
theorem opened_iff (h : List.Forall₂ Fits ns xs) (hns : ns ≠ []) (hrank : ∃ i, standardGrammar.markRank? m.type = some i)
    (hfresh : ∀ d ∈ Nest.docsBelow standardGrammar xs, ∀ n ∈ d.marks, n.type ≠ m.type) :
    Nest.Opened standardGrammar m xs ↔
      (ns.IsChain fun a b => ∀ m ∈ Mark.common a.marksOver, ∀ ms ∈ b.marksOver.head?, m ∉ ms) ∧
        ∀ m' ∈ Mark.common (Node.marksOverBelow ns), standardGrammar.Outer m m' := by
  have hxs : xs ≠ [] := fun hnil => hns (List.length_eq_zero_iff.1 (by rw [h.length_eq, hnil, List.length_nil]))
  simp only [← row_iff h, Mark.mem_common (nonempty_row h hns), ← (carry_row h).all_iff]
  exact ⟨fun ho => ⟨ho.row, ho.outer⟩, fun ⟨hr, ho⟩ => ⟨hxs, hrank, hfresh, ho, hr⟩⟩

/-- A row of nests gives the shapes of the nodes exactly if the nests do. -/
theorem shapes_row (h : List.Forall₂ Fits ns xs) : ∃ ks, standard.renderRow xs = pure ks ∧
    ((∀ x ∈ xs, x.Forall (·.marks = []) (Nest.Opened standardGrammar)) ∧ Node.shapes ks = Node.shapes ns ↔
      ∀ n ∈ ns, ∀ e ∈ n.nodes, Nested e) := by
  induction h with
  | nil => exact ⟨[], rfl, by simp⟩
  | @cons n x ns xs hx hr ih =>
    obtain ⟨k, hk, hshape⟩ := hx.shape
    obtain ⟨ks, hks, hshapes⟩ := ih
    refine ⟨k :: ks, by simp [Composition.renderRow, hk, hks], ?_⟩
    simp only [List.forall_mem_cons, Node.shapes, List.cons.injEq, ← hshape, ← hshapes]
    tauto

theorem length_row (h : List.Forall₂ (fun x k => k.marksOver.length ≤ (x.docs standardGrammar).length) xs ks) :
    (Node.marksOverBelow ks).length ≤ (Nest.docsBelow standardGrammar xs).length := by
  induction h with
  | nil => simp [Node.marksOverBelow]
  | cons hx _ ih =>
    rw [Node.marksOverBelow, Nest.docsBelow, List.length_append, List.length_append]
    omega

theorem Renders.opened (h : Renders y) : y.Forall (·.marks = []) (Nest.Opened standardGrammar) :=
  h.imp (fun _ h => h.2) fun _ _ h => h.2

/-- A nest gives no more leaves than it has: several documents under inline code become one. -/
theorem length_render (h : Renders y) : ∃ k, standard.render y = pure [k] ∧
    k.marksOver.length ≤ (y.docs standardGrammar).length := by
  have hne := Nest.docs_ne_nil h.opened
  induction h with
  | leaf h =>
    obtain ⟨⟨k, hk, hnone, hcode⟩, -⟩ := h
    exact ⟨k, hk, by simp [Node.marksOver_of_none hnone, hcode, Nest.docs]⟩
  | @under m inner h hi ih =>
    have hi' : ∀ x ∈ inner, Renders x := hi
    obtain ⟨ks, hrow, hlen⟩ := Composition.renderRow_eq fun x hx => ih x hx (Nest.docs_ne_nil (hi' x hx).opened)
    have hlen := length_row hlen
    rcases markType_of_mark h.1 with hc | ⟨z, hz, hzm⟩
    · refine ⟨_, render_code hc hrow, ?_⟩
      rw [Node.marksOver_of_none (mark?_of_kind (.inr rfl))]
      exact List.length_pos_iff.2 hne
    · refine ⟨_, render_mark hz hzm hrow, ?_⟩
      have hsome : (z.tree m ks).mark?.isSome := isSome_mark?_iff.2 ⟨z, hz, rfl⟩
      obtain ⟨m', hm'⟩ := Option.isSome_iff_exists.1 hsome
      rw [Node.marksOver_of_mark hm', Nest.docs, List.length_map, List.length_map]
      exact hlen

theorem length_of_render (h : Renders y) (hk : standard.render y = pure [k]) :
    k.marksOver.length ≤ (y.docs standardGrammar).length := by
  obtain ⟨k', hk', hlen⟩ := length_render h
  rwa [eq_of_pure_singleton hk hk']

/-- No other row of nests gives the shapes of the nodes. -/
theorem only_row (h : List.Forall₂ Fits ns xs)
    (hy : List.Forall₂ (fun y k => Renders y ∧ standard.render y = pure [k]) ys ks)
    (hdocs : Nest.docsBelow standardGrammar ys = Nest.docsBelow standardGrammar xs)
    (hshapes : Node.shapes ks = Node.shapes ns) : ys = xs := by
  induction h generalizing ys ks with
  | nil =>
    cases hy with
    | nil => rfl
    | cons => simp [Node.shapes] at hshapes
  | @cons n x ns xs hx hr ih =>
    cases hy with
    | nil => simp [Node.shapes] at hshapes
    | @cons y k ys ks hk hks =>
      rw [Node.shapes, Node.shapes, List.cons.injEq] at hshapes
      rw [Nest.docsBelow, Nest.docsBelow] at hdocs
      -- neither the nest nor the row behind it is shorter, so both are as long
      have hrest : (Nest.docsBelow standardGrammar xs).length ≤ (Nest.docsBelow standardGrammar ys).length := by
        rw [(carry_row hr).length_eq, ← length_marksOverBelow hshapes.2 fun k _ n => length_marksOver]
        exact length_row (hks.imp fun y k hyk => length_of_render hyk.1 hyk.2)
      have hfirst : (x.docs standardGrammar).length ≤ (y.docs standardGrammar).length := by
        rw [hx.carry.length_eq, ← length_marksOver hshapes.1]
        exact length_of_render hk.1 hk.2
      have hlen := congrArg List.length hdocs
      rw [List.length_append, List.length_append] at hlen
      obtain ⟨hd, hds⟩ := List.append_inj hdocs (by omega)
      rw [hx.only y k hk.1 hd hk.2 hshapes.1, ih hks hds hshapes.2]

theorem nested_of_childList (hlist : n.childList = []) (hn : n.mark? = none) : ∀ e ∈ n.nodes, Nested e := by
  rw [Node.forall_nodes, hlist]
  exact ⟨⟨by simp [hlist], by simp [hn]⟩, by simp⟩

/-- A node that stands for no mark has the nest of its document alone. -/
theorem fits_leaf (hn : n.mark? = none) (hk : n.kind ≠ .inlineCode) (hd : d.marks = [])
    (hup : standard.up d = pure [k]) (hshape : k.shape = n.shape ↔ ∀ e ∈ n.nodes, Nested e) : Fits n (.leaf d) where
  carry := by simp [Node.marksOver_of_none hn, hk, Nest.docs, Carry, hd]
  nonempty := by simp [Node.marksOver_of_none hn, hk]
  shape := ⟨k, hup, by rw [← hshape]; exact and_iff_right (.leaf hd)⟩
  only y _ _ hdocs _ _ := Nest.eq_leaf_of_docs hdocs hd

/-- Inline code has the nest of a text under its mark. -/
theorem fits_code {v : String} (hk : n.kind = .inlineCode) (hn : n.children = none)
    (hm : standardGrammar.mark "code" ∅ = .ok m) : Fits n (.under m [.leaf (Grammar.plain v)]) := by
  have hcode : m = .code := by
    cases hm
    rfl
  subst hcode
  have hnone := mark?_of_kind (.inr hk)
  have hlist : n.childList = [] := by simp [Node.childList, hn]
  have hdocs : (Nest.under .code [.leaf (Grammar.plain v)]).docs standardGrammar =
      [standardGrammar.withMark .code (Grammar.plain v)] := rfl
  have hmarks : (standardGrammar.withMark .code (Grammar.plain v)).marks = [.code] := rfl
  refine ⟨?_, ?_, ?_, fun y _ hy hyd _ _ => ?_⟩
  · simp [hdocs, Carry, Node.marksOver_of_none hnone, hk, hmarks]
  · simp [Node.marksOver_of_none hnone, hk]
  · have hrow : standard.renderRow [.leaf (Grammar.plain v)] = pure [.literal .text v] := by
      simp [Composition.renderRow, Composition.render, up_plain]
    refine ⟨_, render_code rfl hrow,
      iff_of_true ⟨.under ?_ (by simpa using .leaf rfl), ?_⟩ (nested_of_childList hlist hnone)⟩
    · exact ⟨by simp, ⟨_, rfl⟩, by simp [Nest.docsBelow, Nest.docs, Grammar.plain],
        by simp [Nest.docsBelow, Nest.docs, Grammar.plain], by simp [Nest.Row, Nest.Apart, Nest.docsBelow]⟩
    · simp [Node.shape_eq_iff, Node.literal, hk, hn]
  · rw [hdocs] at hyd
    cases hy with
    | leaf h =>
      rw [Nest.docs, List.singleton_inj] at hyd
      simp [hyd, hmarks] at h
    | @under m' inner h hi =>
      rw [Nest.docs, List.map_eq_singleton_iff] at hyd
      obtain ⟨e, he, hem⟩ := hyd
      have hm' : m' ∈ [Mark.code] := hmarks ▸ hem ▸ Grammar.self_mem_withMark _ m' e
      obtain rfl := List.mem_singleton.1 hm'
      have hplain : e = Grammar.plain v := by
        rw [← Grammar.without_withMark (h.2.fresh e (by simp [he])), hem]
        rfl
      subst hplain
      rw [Nest.eq_leaf_of_docsBelow he rfl fun x hx => Renders.opened (hi x hx)]

theorem shape_eq_shape_iff {ks : List Node} (hn : n.children.isSome) (hk : k.children = some ks)
    (hkind : k.kind = n.kind) : k.shape = n.shape ↔ Node.shapes ks = Node.shapes n.childList := by
  obtain ⟨cs, hcs⟩ := Option.isSome_iff_exists.1 hn
  simp [Node.shape_eq_iff, hkind, hk, Node.childList, hcs]

/-- No other nest gives the shape of a node that stands for a mark. -/
theorem only_mark {z : MarkConverter} (hz : z ∈ markConverters) (hk : z.kind = n.kind) (hm : n.mark? = some m)
    (hchildren : n.children.isSome) (h : List.Forall₂ Fits n.childList xs) (hne : n.childList ≠ [])
    (hfresh : ∀ d ∈ Nest.docsBelow standardGrammar xs, ∀ n ∈ d.marks, n.type ≠ m.type) (hy : Renders y)
    (hdocs : y.docs standardGrammar = (Nest.under m xs).docs standardGrammar) (hrender : standard.render y = pure [k])
    (hshape : k.shape = n.shape) : y = .under m xs := by
  cases hy with
  | leaf h => exact (Nest.eq_leaf_of_docs hdocs.symm h.2).symm
  | @under m' inner ho hi =>
    rw [Nest.docs_under, Nest.docs_under] at hdocs
    obtain ⟨ls, hrow, hls⟩ := Composition.renderRow_eq (S := fun y k => Renders y ∧ standard.render y = pure [k])
      fun y hy => by
        obtain ⟨k, hk, -⟩ := length_render (hi y hy)
        exact ⟨k, hk, hi y hy, hk⟩
    have hkind := (Node.shape_eq_iff.1 hshape).1
    rcases markType_of_mark ho.1 with hc | ⟨z', hz', hzm'⟩
    · rw [eq_of_pure_singleton hrender (render_code hc hrow), ← hk] at hkind
      exact absurd hkind.symm (markKind_ne hz).2
    · obtain rfl := eq_of_pure_singleton hrender (render_mark hz' hzm' hrow)
      -- the first document carries both marks, and they are of one type
      have hsame : m' = m := by
        obtain ⟨d, hd⟩ := List.exists_mem_of_ne_nil _ ((carry_row h).ne_nil (nonempty_row h hne))
        have hdm := List.mem_map_of_mem (f := standardGrammar.withMark m) hd
        rw [← hdocs] at hdm
        have hrank := Nest.inRank_docs ranked_standard (Renders.opened (.under ho hi)) _ (Nest.docs_under _ _ ▸ hdm)
        exact hrank.eq_of_type (Grammar.mem_marks_of_map_withMark _ hdm) (Grammar.self_mem_withMark _ m d)
          (hzm'.symm.trans (type_of_mark? hz' hkind hm))
      subst hsame
      have hinner := Grammar.map_withMark_injective ho.2.fresh hfresh hdocs
      rw [only_row h hls hinner ((shape_eq_shape_iff hchildren rfl hkind).1 hshape)]

/-- A node that stands for a mark has the nests of its children under this mark. -/
theorem fits_mark {z : MarkConverter} (hn : Formed n) (hz : z ∈ markConverters) (hk : z.kind = n.kind)
    (hm : n.mark? = some m) (hmade : standardGrammar.mark m.type m.attrs = .ok m)
    (h : List.Forall₂ Fits n.childList xs) : Fits n (.under m xs) := by
  have hover := Node.marksOver_of_mark hm
  have hchildren : n.children.isSome := hn.children.2 (hk ▸ not_isLeaf hz)
  have hne : n.childList ≠ [] := hn.inhabited (by simp [hm])
  have hbelow := nonempty_row h hne
  have hnew : ∀ ms ∈ Node.marksOverBelow n.childList, ∀ n ∈ ms, n.type ≠ m.type := by
    intro ms hms k hk he
    have := hn.once (m :: ms) (by rw [hover]; exact List.mem_map_of_mem hms)
    rw [List.map_cons, List.nodup_cons] at this
    exact this.1 (List.mem_map.2 ⟨k, hk, he⟩)
  have hcarry := carry_row h
  have hfresh := hcarry.forall_marks hnew
  obtain ⟨ks, hrow, hshapes⟩ := shapes_row h
  refine ⟨?_, by simpa [hover] using hbelow, ⟨_, render_mark hz (type_of_mark? hz hk hm) hrow, ?_⟩, fun y k =>
    only_mark hz hk hm hchildren h hne hfresh⟩
  · rw [Nest.docs_under, hover]
    exact hcarry.withMark hnew
  · have hopen := opened_iff h hne (Grammar.markRank?_of_mark hmade) hfresh
    rw [Node.forall_nodes, ← hshapes, shape_eq_shape_iff hchildren rfl hk]
    constructor
    · rintro ⟨hforall, hs⟩
      cases hforall with
      | under ho hi =>
        obtain ⟨hr, ho⟩ := hopen.1 ho
        exact ⟨⟨hr, by simpa [hm] using ho⟩, hi, hs⟩
    · rintro ⟨⟨hr, ho⟩, hi, hs⟩
      exact ⟨.under (hopen.2 ⟨hr, ho m hm⟩) hi, hs⟩

/-- Grouping gives nests of made siblings that become nodes one by one. -/
theorem renderRow_group (hs : ∀ d ∈ ds, ∀ e ∈ d.nodes, standardGrammar.Sound e) :
    ∃ ks, standard.renderRow (group ds) = pure ks ∧
      List.Forall₂ (fun y k => Renders y ∧ standard.render y = pure [k]) (group ds) ks := by
  refine Composition.renderRow_eq fun x hx => ?_
  have hx := forall_group_sound (P := fun e => ∃ k, standard.up e = pure [k] ∧ k.mark? = none ∧ k.kind ≠ .inlineCode)
    (fun d hd => hs d hd d (self_mem_nodes d)) (fun d hd => ?_) x hx
  · obtain ⟨k, hk, -⟩ := length_render hx
    exact ⟨k, hk, hx, hk⟩
  · obtain ⟨k, hk, hkind⟩ := up_sound (hs d hd)
    refine ⟨k, by rw [Composition.up_bare markBlind_standard, hk], ?_⟩
    rcases hkind with ⟨-, htext⟩ | ⟨z, hz, -, hzk⟩
    · exact ⟨mark?_of_kind (.inl htext), by simp [htext]⟩
    · exact ⟨mark?_of_node hz hzk, hzk ▸ (kind_ne hz).2.1⟩

/-- What a node type takes for content comes back in shape exactly if the children are rightly nested. -/
theorem fits_node {z : NodeConverter} {cs : List Document} {e : Document} (hn : Formed n)
    (hz : z ∈ nodeConverters) (hk : z.kind = n.kind) (hs : ∀ f ∈ e.nodes, standardGrammar.Sound f)
    (htype : z.type = e.type) (hmarks : e.marks = []) (htakes : Takes n cs z.role e.content)
    (h : List.Forall₂ Fits n.childList xs) (hcs : Nest.docsBelow standardGrammar xs = cs) : Fits n (.leaf e) := by
  have hnone := mark?_of_node hz hk
  have hsc := (forall_nodes.1 hs).2
  obtain ⟨ks, hrow, hks⟩ := renderRow_group hsc
  refine fits_leaf hnone (hk ▸ (kind_ne hz).2.1) hmarks (up_node hz htype hrow) ?_
  by_cases hr : z.role = .container
  · have hchildren : n.children.isSome := hn.children.2 (by rw [← hk, isLeaf_iff hz]; simpa using hr)
    have hcontent : e.content = Nest.docsBelow standardGrammar xs := by
      rw [hr] at htakes
      cases htakes
      exact hcs.symm
    have hrank : ∀ d ∈ e.content, standardGrammar.InRank d.marks := fun d hd => (hsc d hd d (self_mem_nodes d)).marks
    obtain ⟨ls, hlrow, hshapes⟩ := shapes_row h
    have htree : (z.tree e ks).children = some ks := by simp [NodeConverter.tree, hr, Role.children]
    rw [Node.forall_nodes, ← hshapes, shape_eq_shape_iff hchildren htree hk]
    constructor
    · intro hshape
      have hgroup := only_row h hks (by rw [Nest.docs_group _ hrank, hcontent]) hshape
      have hsteady := Nest.steady_group e.content hrank
      rw [hgroup] at hsteady hrow
      obtain rfl := pure_injective (hrow.symm.trans hlrow)
      exact ⟨⟨(row_iff h).1 hsteady.row, by simp [hnone]⟩, hsteady.nests, hshape⟩
    · rintro ⟨hnested, hforall, hshape⟩
      have hgroup := Nest.group_docs ranked_standard ⟨(row_iff h).2 hnested.apart, hforall⟩
      rw [hcontent, hgroup] at hrow
      obtain rfl := pure_injective (hrow.symm.trans hlrow)
      exact hshape
  · have hchildren : n.children = none := by
      rw [← Option.not_isSome_iff_eq_none, hn.children, ← hk, isLeaf_iff hz]
      simpa using hr
    have htree : (z.tree e ks).children = none := by
      cases hrole : z.role <;> simp_all [NodeConverter.tree, Role.children]
    refine iff_of_true ?_ (nested_of_childList (by simp [Node.childList, hchildren]) hnone)
    rw [Node.shape_eq_iff, htree, hchildren]
    exact ⟨hk, rfl⟩

end Catalog
end RichDoc
