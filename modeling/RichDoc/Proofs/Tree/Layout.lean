import RichDoc.Proofs.Tree.Building
import RichDoc.Proofs.Tree.Positioned
import RichDoc.Proofs.Tree.Trimming

/-!
# Trees that are laid out like the text

A reader of text gives each construct a span in that of the construct around it, behind that of its neighbour
(`Nesting.Laid`). The builder trims these spans, joins texts and puts paragraphs around rows of inline content.
Nevertheless the nodes of its tree lie in one another and one after the other as the constructs do
(`Node.orderedAt_ofEvents`): `Node.Ranged` says so of siblings, between two offsets, and whatever the builder does with
siblings keeps it (`ranged_joinTexts`, `ranged_paragraphAt`, `Placed.rows`).
-/

namespace RichDoc
open Markdown (Event Tag)

namespace Node
variable {m n : Node} {ns : List Node} {lo lo' hi hi' start : Nat}

/-- The node has a span, which holds those of its children, and these are in order. -/
structure OrderedAt (n : Node) : Prop where
  placed : ∃ p ∈ n.span, p.start ≤ p.stop ∧ ∀ c ∈ n.childList, ∃ q ∈ c.span, q.within p = true
  siblings : n.childList.IsChain Before

/-! ### Siblings between two offsets -/

/-- The spans of the nodes lie one after the other between two offsets. -/
def Lined : Nat → Nat → List Node → Prop
  | lo, hi, [] => lo ≤ hi
  | lo, hi, n :: r => ∃ p ∈ n.span, lo ≤ p.start ∧ p.start ≤ p.stop ∧ Lined p.stop hi r

/-- The children lie in the node, and a text has none. -/
structure StackedAt (n : Node) : Prop where
  lined : ∃ p ∈ n.span, p.start ≤ p.stop ∧ Lined p.start p.stop n.childList
  text : n.isText = true → n.childList = []

/-- Siblings between two offsets, with all that is below them in order. -/
structure Ranged (lo hi : Nat) (ns : List Node) : Prop where
  lined : Lined lo hi ns
  stacked : ∀ n ∈ ns, ∀ e ∈ n.nodes, e.StackedAt

theorem Lined.le (h : Lined lo hi ns) : lo ≤ hi := by
  induction ns generalizing lo with
  | nil => exact h
  | cons n r ih =>
    obtain ⟨p, -, hlo, hp, hr⟩ := h
    have := ih hr
    omega

theorem Lined.mono (h : Lined lo hi ns) (hlo : lo' ≤ lo) (hhi : hi ≤ hi') : Lined lo' hi' ns := by
  induction ns generalizing lo lo' with
  | nil => exact Nat.le_trans (Nat.le_trans hlo h) hhi
  | cons n r ih =>
    obtain ⟨p, hp, hle, hord, hr⟩ := h
    exact ⟨p, hp, by omega, hord, ih hr (Nat.le_refl _)⟩

theorem Lined.append {ms : List Node} {mid : Nat} (h : Lined lo mid ns) (h' : Lined mid hi ms) :
    Lined lo hi (ns ++ ms) := by
  induction ns generalizing lo with
  | nil => exact h'.mono h (Nat.le_refl _)
  | cons n r ih =>
    obtain ⟨p, hp, hle, hord, hr⟩ := h
    exact ⟨p, hp, hle, hord, ih hr⟩

theorem Lined.mem (h : Lined lo hi ns) (hn : n ∈ ns) :
    ∃ p ∈ n.span, lo ≤ p.start ∧ p.start ≤ p.stop ∧ p.stop ≤ hi := by
  induction ns generalizing lo with
  | nil => simp at hn
  | cons m r ih =>
    obtain ⟨p, hp, hle, hord, hr⟩ := h
    rcases List.mem_cons.1 hn with rfl | hn
    · exact ⟨p, hp, hle, hord, hr.le⟩
    · obtain ⟨q, hq, hqle, hrest⟩ := ih hr hn
      exact ⟨q, hq, by omega, hrest⟩

theorem Lined.pairwise (h : Lined lo hi ns) : ns.Pairwise Before := by
  induction ns generalizing lo with
  | nil => exact .nil
  | cons m r ih =>
    obtain ⟨p, hp, -, -, hr⟩ := h
    refine List.pairwise_cons.2 ⟨fun n hn => ?_, ih hr⟩
    obtain ⟨q, hq, hle, -⟩ := hr.mem hn
    intro a ha b hb
    obtain rfl := Option.some.inj (hp.symm.trans ha)
    obtain rfl := Option.some.inj (hq.symm.trans hb)
    exact hle

theorem StackedAt.orderedAt (h : n.StackedAt) : n.OrderedAt := by
  obtain ⟨p, hp, hord, hlined⟩ := h.lined
  refine ⟨⟨p, hp, hord, fun c hc => ?_⟩, hlined.pairwise.isChain⟩
  obtain ⟨q, hq, hlo, -, hhi⟩ := hlined.mem hc
  exact ⟨q, hq, Span.within_iff.2 ⟨hlo, hhi⟩⟩

/-- All nodes of a tree lie where its root lies. -/
theorem forall_nodes_within (h : ∀ e ∈ n.nodes, e.StackedAt) {p : Span} (hp : p ∈ n.span) :
    ∀ e ∈ n.nodes, ∃ q ∈ e.span, p.start ≤ q.start ∧ q.start ≤ q.stop ∧ q.stop ≤ p.stop := by
  induction n using induct generalizing p with
  | step n ih =>
    obtain ⟨hn, hchildren⟩ := forall_nodes.1 h
    obtain ⟨p', hp', hord, hlined⟩ := hn.lined
    obtain rfl := Option.some.inj (Eq.trans (Eq.symm hp) hp')
    intro e he
    rcases mem_nodes.1 he with rfl | ⟨c, hc, he⟩
    · exact ⟨p, hp, Nat.le_refl _, hord, Nat.le_refl _⟩
    · obtain ⟨q, hq, hlo, -, hhi⟩ := hlined.mem hc
      obtain ⟨r, hr, hle, hrord, hge⟩ := ih c hc (hchildren c hc) hq e he
      exact ⟨r, hr, by omega, hrord, by omega⟩

theorem pairwise_nodes (h : ∀ e ∈ n.nodes, e.StackedAt) :
    n.nodes.Pairwise fun a b => ∀ p ∈ a.span, ∀ q ∈ b.span, p.start ≤ q.start := by
  induction n using induct with
  | step n ih =>
    obtain ⟨hn, hchildren⟩ := forall_nodes.1 h
    obtain ⟨p, hp, -, hlined⟩ := hn.lined
    rw [nodes_eq]
    refine List.pairwise_cons.2 ⟨?_, List.pairwise_flatMap.2 ⟨fun c hc => ih c hc (hchildren c hc), ?_⟩⟩
    · intro e he a ha b hb
      obtain rfl := Option.some.inj (Eq.trans (Eq.symm hp) ha)
      obtain ⟨c, hc, he⟩ := List.mem_flatMap.1 he
      obtain ⟨q, hq, hle, -⟩ := forall_nodes_within h hp e (mem_nodes.2 (.inr ⟨c, hc, he⟩))
      obtain rfl := Option.some.inj (hq.symm.trans hb)
      exact hle
    · -- the nodes of a child all lie behind those of the children before it
      refine hlined.pairwise.imp_of_mem fun {c d} hc hd hcd e he f hf a ha b hb => ?_
      obtain ⟨q, hq, -⟩ := hlined.mem hc
      obtain ⟨r, hr, -⟩ := hlined.mem hd
      obtain ⟨a', ha', -, hord, hstop⟩ := forall_nodes_within (hchildren c hc) hq e he
      obtain ⟨b', hb', hstart, -⟩ := forall_nodes_within (hchildren d hd) hr f hf
      obtain rfl := Option.some.inj (ha'.symm.trans ha)
      obtain rfl := Option.some.inj (hb'.symm.trans hb)
      have := hcd q hq r hr
      omega

/-! ### What the builder does with siblings -/

theorem Ranged.nil (h : lo ≤ hi) : Ranged lo hi [] := ⟨h, by simp⟩

theorem Ranged.cons {p : Span} (hp : p ∈ n.span) (hlo : lo ≤ p.start) (hord : p.start ≤ p.stop)
    (hn : ∀ e ∈ n.nodes, e.StackedAt) (h : Ranged p.stop hi ns) : Ranged lo hi (n :: ns) :=
  ⟨⟨p, hp, hlo, hord, h.lined⟩, List.forall_mem_cons.2 ⟨hn, h.stacked⟩⟩

theorem Ranged.mono (h : Ranged lo hi ns) (hlo : lo' ≤ lo) : Ranged lo' hi ns :=
  ⟨h.lined.mono hlo (Nat.le_refl _), h.stacked⟩

theorem Ranged.append {ms : List Node} {mid : Nat} (h : Ranged lo mid ns) (h' : Ranged mid hi ms) : Ranged lo hi (ns ++ ms) := by
  refine ⟨h.lined.append h'.lined, fun n hn => ?_⟩
  rcases List.mem_append.1 hn with hn | hn
  · exact h.stacked n hn
  · exact h'.stacked n hn

theorem stackedAt_of_childless {p : Span} (hp : p ∈ n.span) (hord : p.start ≤ p.stop) (hn : n.childList = []) :
    ∀ e ∈ n.nodes, e.StackedAt := by
  refine forall_nodes.2 ⟨⟨⟨p, hp, hord, by rwa [hn]⟩, fun _ => hn⟩, ?_⟩
  rw [hn]
  simp

theorem ranged_glue (h : Ranged lo hi (m :: ns)) : Ranged lo hi (glue m ns) := by
  match ns with
  | [] => exact h
  | n :: r =>
    rw [glue]
    split
    · next htext =>
      simp only [Bool.and_eq_true] at htext
      obtain ⟨p, hp, hlo, hord, q, hq, hle, hord', hr⟩ := h.lined
      obtain ⟨hm, hrest⟩ := List.forall_mem_cons.1 h.stacked
      have hspan : (joinText m n).span = some (p.cover q) := by
        have hp : m.span = some p := hp
        have hq : n.span = some q := hq
        simp [joinText, hp, hq]
      have hstart : (p.cover q).start = p.start := Nat.min_eq_left (by omega)
      have hstop : (p.cover q).stop = q.stop := Nat.max_eq_right (by omega)
      have hchildless : m.childList = [] := (hm m m.self_mem_nodes).text htext.1
      refine .cons (p := p.cover q) hspan (by omega) (by omega) ?_ ⟨by rwa [hstop], (List.forall_mem_cons.1 hrest).2⟩
      exact stackedAt_of_childless (p := p.cover q) hspan (by omega) hchildless
    · exact h

theorem ranged_joinTexts (h : Ranged lo hi ns) : Ranged lo hi (joinTexts ns) := by
  induction ns generalizing lo with
  | nil => exact h
  | cons n r ih =>
    obtain ⟨p, hp, hlo, hord, hr⟩ := h.lined
    obtain ⟨hn, hrest⟩ := List.forall_mem_cons.1 h.stacked
    exact ranged_glue (.cons hp hlo hord hn (ih ⟨hr, hrest⟩))

theorem lined_to_last (h : Lined start hi ns) :
    Lined start ((ns.filterMap (·.span.map Span.stop)).foldl max start) ns ∧
      (ns.filterMap (·.span.map Span.stop)).foldl max start ≤ hi := by
  induction ns generalizing start with
  | nil => exact ⟨Nat.le_refl _, h⟩
  | cons n r ih =>
    obtain ⟨p, hp, hlo, hord, hr⟩ := h
    obtain ⟨hlast, hle⟩ := ih hr
    have hp' : n.span = some p := hp
    have hmax : max start p.stop = p.stop := Nat.max_eq_right (by omega)
    simp only [List.filterMap_cons, hp', Option.map_some, List.foldl_cons, hmax]
    exact ⟨⟨p, hp, hlo, hord, hlast⟩, hle⟩

theorem ranged_paragraphAt (h : Ranged start hi ns) : Ranged start hi [Nesting.paragraphAt start ns] := by
  obtain ⟨hlast, hle⟩ := lined_to_last h.lined
  refine .cons (p := ⟨start, _⟩) rfl (Nat.le_refl _) hlast.le ?_ (.nil hle)
  refine forall_nodes.2 ⟨⟨⟨_, rfl, hlast.le, hlast⟩, fun htext => ?_⟩, h.stacked⟩
  simp [Nesting.paragraphAt, parent, isText] at htext

end Node

namespace Nesting
open Node (Ranged StackedAt)
variable {source : Source} {lo mid hi : Nat} {p : Part} {ps qs : List Part}

/-! ### Parts and rows -/

/-- The nodes of the parts lie one after the other between two offsets, and no part starts before those in front of
it stop. -/
def Placed : Nat → Nat → List Part → Prop
  | lo, hi, [] => lo ≤ hi
  | lo, hi, p :: ps => ∃ stop, lo ≤ p.start ∧ Ranged p.start stop p.node.toList ∧ Placed stop hi ps

theorem Placed.append (h : Placed lo hi (ps ++ qs)) : ∃ mid, Placed lo mid ps ∧ Placed mid hi qs := by
  induction ps generalizing lo with
  | nil => exact ⟨lo, Nat.le_refl _, h⟩
  | cons p ps ih =>
    obtain ⟨stop, hlo, hnode, hrest⟩ := h
    obtain ⟨mid, hps, hqs⟩ := ih hrest
    exact ⟨mid, ⟨stop, hlo, hnode, hps⟩, hqs⟩

theorem Placed.ranged (h : Placed lo hi ps) : Ranged lo hi (ps.filterMap (·.node)) := by
  induction ps generalizing lo with
  | nil => exact .nil h
  | cons p ps ih =>
    obtain ⟨stop, hlo, hnode, hrest⟩ := h
    have hcat : (p :: ps).filterMap (·.node) = p.node.toList ++ ps.filterMap (·.node) := by
      cases hn : p.node <;> simp [hn]
    rw [hcat]
    exact (hnode.mono hlo).append (ih hrest)

theorem Placed.ranged_of_first (h : Placed lo hi ps) (hp : ps.find? (·.node.isSome) = some p) :
    lo ≤ p.start ∧ Ranged p.start hi (ps.filterMap (·.node)) := by
  induction ps generalizing lo with
  | nil => cases hp
  | cons q ps ih =>
    obtain ⟨stop, hlo, hnode, hrest⟩ := h
    cases hq : q.node with
    | none =>
      have hle := hnode.lined.le
      rw [List.find?_cons_of_neg (by simp [hq])] at hp
      rw [List.filterMap_cons_none hq]
      obtain ⟨hstart, hranged⟩ := ih hrest hp
      exact ⟨by omega, hranged⟩
    | some n =>
      rw [List.find?_cons_of_pos (by simp [hq])] at hp
      obtain rfl := Option.some.inj hp
      have hplaced : Placed q.start hi (q :: ps) := ⟨stop, Nat.le_refl _, hnode, hrest⟩
      exact ⟨hlo, hplaced.ranged⟩

def Row.parts : Row → List Part
  | inline ps => ps
  | block p => [p]

theorem flatMap_parts_rows (ps : List Part) : (rows ps).flatMap Row.parts = ps := by
  induction ps with
  | nil => rfl
  | cons p ps ih =>
    rw [rows]
    split
    · rw [List.flatMap_cons, ih]
      rfl
    · split
      · next qs rs h =>
        rw [h, List.flatMap_cons] at ih
        rw [List.flatMap_cons]
        exact congrArg (p :: ·) ih
      · rw [List.flatMap_cons, ih]
        rfl

theorem Placed.row {r : Row} (h : Placed lo hi r.parts) : Ranged lo hi r.nodes := by
  cases r with
  | inline ps =>
    rw [Row.nodes]
    split
    · next p hp =>
      obtain ⟨hlo, hranged⟩ := h.ranged_of_first hp
      exact (Node.ranged_paragraphAt (Node.ranged_joinTexts hranged)).mono hlo
    · exact .nil h.ranged.lined.le
  | block p =>
    have hnode := h.ranged
    cases hp : p.node <;> simpa [Row.nodes, Row.parts, hp] using hnode

theorem Placed.rows (h : Placed lo hi ps) : Ranged lo hi ((rows ps).flatMap Row.nodes) := by
  rw [← flatMap_parts_rows ps] at h
  generalize Nesting.rows ps = rs at h
  induction rs generalizing lo with
  | nil => exact .nil h
  | cons r rs ih =>
    obtain ⟨mid, hr, hrs⟩ := Placed.append h
    exact hr.row.append (ih hrs)

/-! ### Spans of events -/

def range : Nesting → Span
  | leaf _ r _ => r
  | pair _ a _ _ => a

def isBreak : Nesting → Bool
  | leaf .softBreak _ _ | leaf .hardBreak _ _ => true
  | _ => false

/-- Both ends of a construct have its span, which holds what is inside, and this stands in order. A construct and a
rule are more than line endings, all else but breaks is up to its end, and no construct ends with a break. Nothing is
said of what is inside a construct that keeps text. -/
inductive Laid (source : Source) : Nesting → Prop where
  | rule {r : Span} {h} (hr : source.Filled r) : Laid source (leaf .rule r h)
  | lineBreak {e : Event} {r : Span} {h} (he : e = .softBreak ∨ e = .hardBreak) (hr : (source.slice? r).isSome = true) :
    Laid source (leaf e r h)
  | leaf {e : Event} {r : Span} {h} (he : e ≠ .rule) (hr : source.FilledToEnd r) : Laid source (leaf e r h)
  | keeping {t : Tag} {a : Span} {inside : List Nesting} (ht : t.making = .value ∨ t.making = .alt)
    (ha : source.Filled a) : Laid source (pair t a inside a)
  | pair {t : Tag} {a : Span} {inside : List Nesting} (ha : source.Filled a) (hin : ∀ x ∈ inside, Laid source x)
    (hwithin : ∀ x ∈ inside, x.range.within a = true)
    (horder : inside.IsChain fun x y => x.range.stop ≤ y.range.start)
    (hlast : ∀ x ∈ inside.getLast?, x.isBreak = false) : Laid source (pair t a inside a)

/-- Where the node of a part stops. -/
def reach (source : Source) : Nesting → Nat
  | leaf .rule r _ => source.trimmedStop r
  | leaf _ r _ => r.stop
  | pair _ a _ _ => source.trimmedStop a

variable {x : Nesting} {xs : List Nesting} {a : Span} {t : String}

theorem start_part (source : Source) (x : Nesting) : (x.part source).start = x.range.start := by
  cases x <;> rfl

theorem reach_leaf {e : Event} {r : Span} {h} (he : e ≠ .rule) : (leaf e r h).reach source = r.stop := by
  cases e <;> first | rfl | exact absurd rfl he

theorem Laid.reach_spec (h : x.Laid source) : x.range.start ≤ x.reach source ∧ x.reach source ≤ x.range.stop ∧
    x.range.stop ≤ source.size := by
  have hfilled : ∀ {a}, source.Filled a → a.start ≤ source.trimmedStop a ∧ source.trimmedStop a ≤ a.stop ∧
      a.stop ≤ source.size := by
    intro a ha
    obtain ⟨t, ht, -⟩ := ha
    exact ⟨source.le_trimmedStop a, Source.trimmedStop_le_stop ht, (Source.range_of_slice? ht).2⟩
  have hleaf : ∀ {r t}, source.slice? r = some t → r.start ≤ r.stop ∧ r.stop ≤ r.stop ∧ r.stop ≤ source.size := by
    intro r t ht
    obtain ⟨hord, hsize⟩ := Source.range_of_slice? ht
    exact ⟨hord, Nat.le_refl _, hsize⟩
  cases h with
  | rule hr => exact hfilled hr
  | @lineBreak e r h he hr =>
    obtain ⟨t, ht⟩ := Option.isSome_iff_exists.1 hr
    rcases he with rfl | rfl <;> exact hleaf ht
  | @leaf e r h he hr =>
    obtain ⟨t, ht, -⟩ := hr
    rw [reach_leaf he]
    exact hleaf ht
  | keeping ht ha => exact hfilled ha
  | pair ha => exact hfilled ha

/-- What is no break stops before the line endings of the construct around it. -/
theorem Laid.reach_le (hs : source.size ≤ source.bytes.size) (h : x.Laid source) (hx : x.isBreak = false)
    (ha : source.slice? a = some t) (hxa : x.range.within a = true) : x.reach source ≤ source.trimmedStop a := by
  cases h with
  | rule hr => exact Source.trimmedStop_le_trimmedStop hr ha hxa
  | lineBreak he hr => rcases he with rfl | rfl <;> cases hx
  | leaf he hr =>
    rw [reach_leaf he]
    exact Source.stop_le_trimmedStop hs hr ha hxa
  | keeping ht hr => exact Source.trimmedStop_le_trimmedStop hr ha hxa
  | pair hr => exact Source.trimmedStop_le_trimmedStop hr ha hxa

/-- A break stops where something follows that is no break. -/
theorem forall_reach_le (hs : source.size ≤ source.bytes.size) (h : ∀ x ∈ xs, x.Laid source)
    (horder : xs.IsChain fun x y => x.range.stop ≤ y.range.start) (hlast : ∀ x ∈ xs.getLast?, x.isBreak = false)
    (ha : source.slice? a = some t) (hxa : ∀ x ∈ xs, x.range.within a = true) :
    ∀ x ∈ xs, x.reach source ≤ source.trimmedStop a := by
  induction xs with
  | nil => simp
  | cons x xs ih =>
    obtain ⟨hx, h⟩ := List.forall_mem_cons.1 h
    obtain ⟨hin, hxa⟩ := List.forall_mem_cons.1 hxa
    cases xs with
    | nil => exact List.forall_mem_singleton.2 (hx.reach_le hs (hlast x rfl) ha hin)
    | cons y ys =>
      obtain ⟨hxy, horder⟩ := List.isChain_cons_cons.1 horder
      have hrest := ih h horder (by simpa using hlast) hxa
      refine List.forall_mem_cons.2 ⟨?_, hrest⟩
      have := hx.reach_spec
      have := (h y (List.mem_cons_self ..)).reach_spec
      have := hrest y (List.mem_cons_self ..)
      omega

theorem placed_parts (h : ∀ x ∈ xs, x.Laid source)
    (hnode : ∀ x ∈ xs, Ranged x.range.start (x.reach source) (x.part source).node.toList)
    (horder : xs.IsChain fun x y => x.range.stop ≤ y.range.start) (hhi : ∀ x ∈ xs, x.reach source ≤ hi)
    (hlo : lo ≤ hi) (hfirst : ∀ x ∈ xs.head?, lo ≤ x.range.start) : Placed lo hi (parts source xs) := by
  induction xs generalizing lo with
  | nil => exact hlo
  | cons x xs ih =>
    obtain ⟨hx, h⟩ := List.forall_mem_cons.1 h
    obtain ⟨hxn, hnode⟩ := List.forall_mem_cons.1 hnode
    obtain ⟨hxhi, hhi⟩ := List.forall_mem_cons.1 hhi
    obtain ⟨hnext, horder⟩ := List.isChain_cons.1 horder
    have hstart := hfirst x rfl
    rw [← start_part source] at hxn hstart
    refine ⟨x.reach source, hstart, hxn, ih h hnode horder hhi hxhi fun y hy => ?_⟩
    have := hnext y hy
    have := hx.reach_spec
    omega

/-! ### The nodes of events and constructs -/

theorem span_withData? (n : Node) (k : String) (v : Option Json) : (n.withData? k v).span = n.span := by
  cases v <;> rfl

theorem span_pairNode (source : Source) (t : Tag) (a : Span) (text : String) (ps : List Part) :
    (pairNode source t a a text ps).span = some ⟨a.start, source.trimmedStop a⟩ := by
  have hmax : max (source.trimmedStop a) a.start = source.trimmedStop a := Nat.max_eq_left (source.le_trimmedStop a)
  unfold pairNode
  rw [hmax]
  cases t.making
  · rfl
  · rfl
  · exact span_withData? ..
  · rfl

theorem ranged_pairNode {tag : Tag} {text : String}
    (hps : tag.making = .item ∨ tag.making = .children → Placed a.start (source.trimmedStop a) ps) :
    Ranged a.start (source.trimmedStop a) [pairNode source tag a a text ps] := by
  have hord := source.le_trimmedStop a
  have hspan := span_pairNode source tag a text ps
  have hchildren : Ranged a.start (source.trimmedStop a) (pairNode source tag a a text ps).childList := by
    unfold pairNode
    cases hm : tag.making with
    | value => exact .nil hord
    | alt => exact .nil hord
    | item => exact (hps (.inl hm)).rows
    | children => exact Node.ranged_joinTexts (hps (.inr hm)).ranged
  refine .cons hspan (Nat.le_refl _) hord (Node.forall_nodes.2 ⟨⟨⟨_, hspan, hord, hchildren.lined⟩, ?_⟩,
    hchildren.stacked⟩) (.nil (Nat.le_refl _))
  intro htext
  rw [Builder.isText_pairNode] at htext
  cases htext

theorem ranged_childless {n : Node} {p : Span} (hp : n.span = some p) (hord : p.start ≤ p.stop) (hn : n.childList = []) :
    Ranged p.start p.stop [n] :=
  .cons hp (Nat.le_refl _) hord (Node.stackedAt_of_childless hp hord hn) (.nil (Nat.le_refl _))

theorem ranged_leafNode {e : Event} {r : Span} (he : e ≠ .rule) (hr : r.start ≤ r.stop) :
    Ranged r.start r.stop (leafNode source r e).toList := by
  have hmake : Span.make r.start r.stop = r := if_pos hr
  have hplaced : ∀ n : Node, n.childList = [] → Ranged r.start r.stop [n.placed r.start r.stop] := by
    intro n hn
    refine ranged_childless ?_ hr hn
    rw [Node.placed, hmake]
  cases e with
  | rule => exact absurd rfl he
  | start t => exact .nil hr
  | stop => exact .nil hr
  | taskMarker c => exact .nil hr
  | _ => exact hplaced _ rfl

theorem Laid.ranged (hs : source.size ≤ source.bytes.size) (h : x.Laid source) :
    Ranged x.range.start (x.reach source) (x.part source).node.toList := by
  induction h with
  | @rule r h hr =>
    have hord := source.le_trimmedStop r
    have hmake : Span.make r.start (source.trimmedStop r) = ⟨r.start, source.trimmedStop r⟩ := if_pos hord
    exact ranged_childless (p := ⟨r.start, source.trimmedStop r⟩) (congrArg some hmake) hord rfl
  | @lineBreak e r h he hr =>
    obtain ⟨t, ht⟩ := Option.isSome_iff_exists.1 hr
    have hne : e ≠ .rule := by rcases he with rfl | rfl <;> simp
    rw [reach_leaf hne]
    exact ranged_leafNode hne (Source.range_of_slice? ht).1
  | @leaf e r h he hr =>
    obtain ⟨t, ht, -⟩ := hr
    rw [reach_leaf he]
    exact ranged_leafNode he (Source.range_of_slice? ht).1
  | @keeping t a inside ht ha =>
    refine ranged_pairNode fun hm => ?_
    rcases ht with ht | ht <;> simp [ht] at hm
  | @pair t a inside ha hin hwithin horder hlast ih =>
    obtain ⟨u, hu, -⟩ := id ha
    refine ranged_pairNode fun _ => ?_
    have hreach := forall_reach_le hs hin horder hlast hu hwithin
    refine placed_parts hin ih horder hreach (source.le_trimmedStop a) fun x hx => ?_
    exact (Span.within_iff.1 (hwithin x (List.mem_of_mem_head? hx))).1

/-- The tree of constructs that are laid out in the text is laid out in the same way. -/
theorem stackedAt_tree (hs : source.size ≤ source.bytes.size) (h : ∀ x ∈ xs, x.Laid source)
    (horder : xs.IsChain fun x y => x.range.stop ≤ y.range.start) : ∀ e ∈ (tree source xs).nodes, e.StackedAt := by
  have hplaced : Placed 0 source.size (parts source xs) :=
    placed_parts h (fun x hx => (h x hx).ranged hs) horder
      (fun x hx => by
        have := (h x hx).reach_spec
        omega)
      (Nat.zero_le _) fun _ _ => Nat.zero_le _
  have hchildren := Node.ranged_joinTexts hplaced.ranged
  refine Node.forall_nodes.2 ⟨⟨⟨⟨0, source.size⟩, rfl, Nat.zero_le _, hchildren.lined⟩, ?_⟩, hchildren.stacked⟩
  intro htext
  cases htext

end Nesting

/-! ### The whole tree -/

/-- Nodes lie in one another, one after the other and in the order of their starts, as the constructs of a text do. -/
theorem Node.orderedAt_ofEvents (text : String) {es : List (Event × Span)} (hes : Balanced 0 es) :
    (∃ xs, Nesting.eventsOf xs = es) ∧
      ∀ xs, Nesting.eventsOf xs = es → (∀ x ∈ xs, x.Laid (Source.ofString text)) →
        (xs.IsChain fun x y => x.range.stop ≤ y.range.start) →
        (∀ n ∈ (Node.ofEvents (Source.ofString text) es).nodes, n.OrderedAt) ∧
          (Node.ofEvents (Source.ofString text) es).nodes.Pairwise fun a b =>
            ∀ p ∈ a.span, ∀ q ∈ b.span, p.start ≤ q.start := by
  refine ⟨Nesting.exists_nestings_of_balanced hes, ?_⟩
  rintro xs rfl hlaid horder
  have hsize : (Source.ofString text).size ≤ (Source.ofString text).bytes.size := Nat.le_refl _
  have hstacked := Nesting.stackedAt_tree hsize hlaid horder
  rw [ofEvents_eventsOf]
  exact ⟨fun n hn => (hstacked n hn).orderedAt, pairwise_nodes hstacked⟩

def brokenText : String := "- x\\\n  *y*\n  ```\n  é\n  ```\n"

/-- What is in an item: a line that is broken, and code. -/
def brokenItem : List Nesting := [
  .leaf (.text "x") ⟨2, 3⟩ rfl, .leaf .hardBreak ⟨3, 5⟩ rfl,
  .pair .emphasis ⟨7, 10⟩ [.leaf (.text "y") ⟨8, 9⟩ rfl] ⟨7, 10⟩,
  .pair (.codeBlock (some "")) ⟨13, 28⟩ [.leaf (.text "é\n") ⟨19, 22⟩ rfl] ⟨13, 28⟩]

def brokenList : List Nesting := [.pair (.list none) ⟨0, 28⟩ [.pair .item ⟨0, 28⟩ brokenItem ⟨0, 28⟩] ⟨0, 28⟩]

theorem laid_brokenList : ∀ x ∈ brokenList, x.Laid (Source.ofString brokenText) := by
  have hfilled : (Source.ofString brokenText).Filled ⟨0, 28⟩ := by decide +kernel
  have hitem : ∀ x ∈ brokenItem, x.Laid (Source.ofString brokenText) := by
    simp only [brokenItem, List.forall_mem_cons]
    refine ⟨.leaf (by simp) (by decide +kernel), .lineBreak (.inr rfl) (by decide +kernel), ?_, ?_, by simp⟩
    · exact .pair (by decide +kernel) (by simpa using .leaf (by simp) (by decide +kernel)) (by decide) (by simp)
        (by simp [Nesting.isBreak])
    · exact .keeping (.inl rfl) (by decide +kernel)
  refine List.forall_mem_singleton.2 (.pair hfilled (List.forall_mem_singleton.2 ?_) (by decide) (by simp)
    (by simp [Nesting.isBreak]))
  exact .pair hfilled hitem (by decide) (by decide) (by simp [brokenItem, Nesting.isBreak])

theorem orderedAt_brokenList :
    Balanced 0 (Nesting.eventsOf brokenList) ∧ (∀ x ∈ brokenList, x.Laid (Source.ofString brokenText)) ∧
      (∀ n ∈ (Node.ofEvents (Source.ofString brokenText) (Nesting.eventsOf brokenList)).nodes, n.OrderedAt) ∧
      (Node.ofEvents (Source.ofString brokenText) (Nesting.eventsOf brokenList)).nodes.Pairwise fun a b =>
        ∀ p ∈ a.span, ∀ q ∈ b.span, p.start ≤ q.start := by
  have hbalanced : Balanced 0 (Nesting.eventsOf brokenList) := by rfl
  exact ⟨hbalanced, laid_brokenList,
    (Node.orderedAt_ofEvents brokenText hbalanced).2 brokenList rfl laid_brokenList (by simp [brokenList])⟩

end RichDoc
