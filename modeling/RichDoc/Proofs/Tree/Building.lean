import RichDoc.Proofs.Tree.Absorbing
import RichDoc.Proofs.Tree.Nodes

/-!
# The builder computes the tree of the nesting

Taking all events of a nesting is the same as absorbing its part, whatever the surroundings (`run_events`). For a
construct the surroundings of what it holds are the frame that it opened: what this frame comes to when it is closed is
`Nesting.pairNode` (`close_kept`, `close_children`, `close_item`). A frame that keeps text only counts brackets
(`run_events_kept`).
-/

namespace RichDoc
open Markdown (Event Tag)

namespace Builder
variable {b : Builder} {source : Source} {t : Tag}

/-! ### A frame that keeps text -/

theorem run_append (b : Builder) (es es' : List (Event × Span)) : b.run (es ++ es') = (b.run es).run es' :=
  List.foldl_append

/-- Inside a frame that keeps text only the text counts. -/
def keep (b : Builder) (s : String) : Builder := { b with top := { b.top with buffer := b.top.buffer ++ s } }

mutual
theorem run_events_kept : (x : Nesting) → ∀ {b : Builder}, b.top.collect ≠ .children → b.run x.events = b.keep x.text
  | .leaf e r h, b, hb => by
    show b.step e r = _
    rw [step, if_neg hb]
    cases e <;> simp [Event.isBracket] at h <;> simp [collectStep, keep, Nesting.text, Event.keptText]
  | .pair t a inside z, b, hb => by
    -- one more bracket is open inside
    let c : Builder := { b with top := { b.top with swallowed := b.top.swallowed + 1 } }
    have hc : c.top.collect ≠ .children := hb
    have hstart : b.step (.start t) a = c := by rw [step, if_neg hb]; rfl
    have hstop : (c.keep (Nesting.textOf inside)).step .stop z = b.keep (Nesting.textOf inside) := by
      rw [step, if_neg (by exact hc)]
      simp [collectStep, keep, c]
    calc b.run (Nesting.pair t a inside z).events
      _ = ((b.step (.start t) a).run (Nesting.eventsOf inside)).step .stop z := by
        rw [Nesting.events, run, List.foldl_cons, List.foldl_append]
        rfl
      _ = (c.keep (Nesting.textOf inside)).step .stop z := by rw [hstart, run_eventsOf_kept inside hc]
      _ = b.keep (Nesting.pair t a inside z).text := hstop

theorem run_eventsOf_kept : (xs : List Nesting) → ∀ {b : Builder}, b.top.collect ≠ .children →
    b.run (Nesting.eventsOf xs) = b.keep (Nesting.textOf xs)
  | [], b, _ => by simp [run, Nesting.eventsOf, Nesting.textOf, keep]
  | x :: xs, b, hb => by
    rw [Nesting.eventsOf, run_append, run_events_kept x hb, run_eventsOf_kept xs (by exact hb)]
    simp [keep, Nesting.textOf, String.append_assoc]
end

/-! ### What a construct opens -/

theorem withData?_same (n : Node) (k : String) (v : Option Json) :
    (n.withData? k v).kind = n.kind ∧ (n.withData? k v).value = n.value ∧ (n.withData? k v).children = n.children := by
  cases v <;> exact ⟨rfl, rfl, rfl⟩

/-- What the table of constructs says of those that make something of their own. -/
theorem opened_cases (t : Tag) : (opened t).1.kind ≠ .text ∧
    match t.making with
    | .value => (opened t).2 = .literal ∧ (opened t).1.children = none
    | .alt => (opened t).2 = .alt ∧ (opened t).1.children = none ∧ (opened t).1.value = none
    | .item => opened t = (Node.parent .listItem [], .children)
    | .children => (opened t).2 = .children ∧ (opened t).1.children = some [] ∧ (opened t).1.kind ≠ .listItem := by
  cases t with
  | codeBlock info => cases info <;> simp [opened, Tag.making, withData?_same, Node.literal]
  | _ => simp [opened, Tag.making, withData?_same, Node.withData, Node.parent, Node.literal, Node.void]

theorem opened_of_value (h : t.making = .value) : (opened t).2 = .literal ∧ (opened t).1.children = none := by
  simpa only [h] using (opened_cases t).2

theorem opened_of_alt (h : t.making = .alt) :
    (opened t).2 = .alt ∧ (opened t).1.children = none ∧ (opened t).1.value = none := by
  simpa only [h] using (opened_cases t).2

theorem opened_of_item (h : t.making = .item) : opened t = (Node.parent .listItem [], .children) := by
  simpa only [h] using (opened_cases t).2

theorem opened_of_children (h : t.making = .children) :
    (opened t).2 = .children ∧ (opened t).1.children = some [] ∧ (opened t).1.kind ≠ .listItem := by
  simpa only [h] using (opened_cases t).2

open Nesting (pairNode textOf eventsOf parts rows Row)

theorem kind_pairNode (source : Source) (t : Tag) (a z : Span) (text : String) (ps : List Nesting.Part) :
    (pairNode source t a z text ps).kind = (opened t).1.kind := by
  unfold pairNode
  cases t.making <;> simp [Node.withData, withData?_same]

theorem isText_pairNode (source : Source) (t : Tag) (a z : Span) (text : String) (ps : List Nesting.Part) :
    (pairNode source t a z text ps).isText = false := by
  simp [Node.isText, kind_pairNode, (opened_cases t).1]

theorem block_part (source : Source) (x : Nesting) (h : (x.part source).isBlock = true) :
    ∃ n, (x.part source).node = some n ∧ n.isText = false := by
  cases x with
  | leaf e r he =>
    obtain rfl : e = .rule := by simpa [Nesting.part] using h
    exact ⟨_, rfl, rfl⟩
  | pair t a inside z => exact ⟨_, rfl, isText_pairNode ..⟩

theorem block_parts (source : Source) (xs : List Nesting) :
    ∀ p ∈ parts source xs, p.isBlock = true → ∃ n, p.node = some n ∧ n.isText = false := by
  induction xs with
  | nil => simp [parts]
  | cons x xs ih => exact List.forall_mem_cons.2 ⟨block_part source x, ih⟩

theorem withoutLastLineFeed_eq (s : String) : Frame.withoutLastLineFeed s = Nesting.withoutLineFeed s := by
  unfold Frame.withoutLastLineFeed Nesting.withoutLineFeed
  rcases List.eq_nil_or_concat s.toList with h | ⟨l, c, h⟩
  · simp [h]
  · rw [List.concat_eq_append] at h
    rw [h, List.reverse_append]
    by_cases hc : c = '\n'
    · subst hc
      simp
    · simp [hc]

/-! ### What a construct comes to -/

/-- The frame that a construct opens. -/
def frameOf (t : Tag) (a : Span) : Frame := { node := (opened t).1, start := a.start, collect := (opened t).2 }

/-- The frames around a construct when it is opened. -/
def around (b : Builder) (t : Tag) (a : Span) : Builder :=
  if t.isInline then b.ensureInline a.start else b.closeImplicit

theorem Gathers.around (h : b.Gathers) (t : Tag) (a : Span) : (b.around t a).Gathers := by
  unfold Builder.around
  split
  · exact h.ensureInline a.start
  · exact h.closeImplicit

theorem source_around (b : Builder) (t : Tag) (a : Span) : (b.around t a).source = b.source := by
  unfold around
  split
  · exact source_ensureInline b a.start
  · rfl

theorem step_leaf (hb : b.Gathers) {e : Event} {r : Span} (h : e.isBracket = false) :
    b.step e r = b.absorb ((Nesting.leaf e r h).part b.source) := by
  have htop : b.top.collect = .children := hb b.top (List.mem_cons_self ..)
  have hinline : ∀ n : Node, n.isText = false → ∀ start,
      ({ b.ensureInline start with top := (b.ensureInline start).top.append n } : Builder) =
        { b.ensureInline start with top := (b.ensureInline start).top.add n } := fun n hn start => by
    rw [Frame.append_eq hn]
  rw [step, if_pos htop]
  cases e with
  | start t => simp [Event.isBracket] at h
  | stop => simp [Event.isBracket] at h
  | text s =>
    show ({ b.ensureInline r.start with top := _ } : Builder) = _
    rw [Frame.addText_eq]
    rfl
  | softBreak =>
    show ({ b.ensureInline r.start with top := _ } : Builder) = _
    rw [Frame.addText_eq]
    rfl
  | rule =>
    show ({ b.closeImplicit with top := _ } : Builder) = _
    rw [Frame.append_eq (by rfl)]
    rfl
  | taskMarker c => rfl
  | _ => exact hinline _ (by rfl) r.start

def adding (b : Builder) (n : Node) : Builder := { b with top := b.top.append n }

/-- All events of a construct add its node. -/
theorem absorb_pair (b : Builder) (t : Tag) (a z : Span) (inside : List Nesting) :
    b.absorb ((Nesting.pair t a inside z).part b.source) =
      ((b.around t a).marks
        (if t.making = .children then (parts b.source inside).flatMap (·.checks) else [])).adding
          (pairNode b.source t a z (textOf inside) (parts b.source inside)) := by
  rw [adding, Frame.append_eq (isText_pairNode ..)]
  unfold absorb around
  cases h : t.isInline <;> simp [Nesting.part, h]

theorem close_kept (h : t.making = .value ∨ t.making = .alt) (a z : Span) (s : String) (ps : List Nesting.Part) :
    ({ frameOf t a with buffer := s }).close (source.trimmedStop z) = pairNode source t a z s ps := by
  unfold Frame.close pairNode
  rcases h with h | h
  · obtain ⟨hcollect, hchildren⟩ := opened_of_value h
    simp [h, frameOf, hcollect, hchildren, withoutLastLineFeed_eq, make_eq]
  · obtain ⟨hcollect, hchildren, hvalue⟩ := opened_of_alt h
    simp [h, frameOf, hcollect, hchildren, hvalue, make_eq, Node.withData]

theorem close_children (h : t.making = .children) (a z : Span) (s : String) (ps : List Nesting.Part) :
    ((frameOf t a).filled (ps.filterMap (·.node))).close (source.trimmedStop z) = pairNode source t a z s ps := by
  obtain ⟨hcollect, -, -⟩ := opened_of_children h
  unfold Frame.close pairNode
  simp [h, frameOf, Frame.filled, hcollect, make_eq]

/-- Of several markers the last counts. -/
theorem foldl_insert (d : Data) (cs : List Bool) :
    cs.foldl (fun d c => d.insert "checked" (.bool c)) d =
      match cs.getLast? with
      | some c => d.insert "checked" (.bool c)
      | none => d := by
  have hinsert : ∀ (d : Data) (v w : Json), (d.insert "checked" v).insert "checked" w = d.insert "checked" w := by
    intro d v w
    refine StringMap.ext_get? fun k => ?_
    simp only [StringMap.get?_insert]
    split <;> rfl
  have hlast : ∀ (cs : List Bool) (d : Data) (v : Json),
      (cs.foldl (fun d c => d.insert "checked" (.bool c)) d).insert "checked" v = d.insert "checked" v := by
    intro cs
    induction cs with
    | nil => exact fun _ _ => rfl
    | cons c cs ih =>
      intro d v
      rw [List.foldl_cons, ih, hinsert]
  rcases List.eq_nil_or_concat cs with rfl | ⟨cs, c, rfl⟩
  · rfl
  · rw [List.concat_eq_append, List.foldl_append, List.getLast?_append]
    exact hlast cs d (.bool c)

theorem close_item (h : t.making = .item) (a z : Span) (s : String) (ps : List Nesting.Part) :
    ((frameOf t a).extend ((rows ps).flatMap Row.nodes) (ps.flatMap (·.checks))).close (source.trimmedStop z) =
      pairNode source t a z s ps := by
  unfold Frame.close pairNode
  simp only [h, frameOf, Frame.extend, opened_of_item h, foldl_insert, make_eq]
  cases (ps.flatMap (·.checks)).getLast? <;> simp [Node.withData?, Node.withData, Node.childList, Node.parent]

/-! ### All events of a nesting -/

theorem step_stop (hb : b.Gathers) (z : Span) :
    b.step .stop z = b.closeImplicit.closeTop (b.source.trimmedStop z) := by
  rw [step, if_pos (hb _ (List.mem_cons_self ..))]
  rfl

theorem run_pair_kept (h : t.making = .value ∨ t.making = .alt) (b : Builder) (a z : Span)
    (inside : List Nesting) (ps : List Nesting.Part) :
    ((b.push (frameOf t a)).run (eventsOf inside)).step .stop z =
      b.adding (pairNode b.source t a z (textOf inside) ps) := by
  have hne : (frameOf t a).collect ≠ .children := by
    rcases h with h | h
    · simp [frameOf, opened_of_value h]
    · simp [frameOf, opened_of_alt h]
  have hkeep : (b.push (frameOf t a)).keep (textOf inside) =
      b.push { frameOf t a with buffer := textOf inside } := by
    simp [keep, push, frameOf]
  rw [run_eventsOf_kept inside hne, hkeep, step, if_neg (by exact hne), ← close_kept h]
  rfl

theorem run_pair_children (h : t.making = .children) (hb : b.Gathers) (a z : Span) (s : String)
    (ps : List Nesting.Part) :
    (ps.foldl absorb (b.push (frameOf t a))).step .stop z =
      (b.marks (ps.flatMap (·.checks))).adding (pairNode b.source t a z s ps) := by
  obtain ⟨hcollect, hchildren, hk⟩ := opened_of_children h
  have hfold : ps.foldl absorb (b.push (frameOf t a)) =
      (b.marks (ps.flatMap (·.checks))).push ((frameOf t a).filled (ps.filterMap (·.node))) := by
    rw [← marks_push hk, push, push, marks_of_ne hk, ← Frame.filled_nil (f := frameOf t a) hchildren,
      foldl_absorb_plain hk rfl, List.nil_append]
    rfl
  have hg := (hb.push (f := frameOf t a) hcollect).foldl_absorb ps
  rw [hfold] at hg ⊢
  rw [step_stop hg, ← close_children h a z s ps, ← source_marks b (ps.flatMap (·.checks)), push,
    closeImplicit_of_explicit rfl]
  rfl

theorem run_pair_item (h : t.making = .item) (hb : b.Gathers) (a z : Span) (s : String)
    {ps : List Nesting.Part} (hps : ∀ p ∈ ps, p.isBlock = true → ∃ n, p.node = some n ∧ n.isText = false) :
    (ps.foldl absorb (b.push (frameOf t a))).step .stop z = b.adding (pairNode b.source t a z s ps) := by
  have hcollect : (frameOf t a).collect = .children := by simp [frameOf, opened_of_item h]
  have hk : (frameOf t a).node.kind = .listItem := by simp [frameOf, opened_of_item h, Node.parent]
  have hchildren : (frameOf t a).node.children.isSome = true := by simp [frameOf, opened_of_item h, Node.parent]
  have hclose : (ps.foldl absorb (b.push (frameOf t a))).closeImplicit =
      b.push ((frameOf t a).extend ((rows ps).flatMap Row.nodes) (ps.flatMap (·.checks))) :=
    foldl_absorb_item hk rfl hchildren (List.forall_mem_nil _) hps
  have hg := (hb.push hcollect).foldl_absorb ps
  rw [step_stop hg, hclose, source_foldl_absorb, ← close_item h a z s ps]
  rfl

theorem run_pair (hb : b.Gathers) (t : Tag) (a z : Span) (inside : List Nesting)
    (ih : ∀ {c : Builder}, c.Gathers → c.run (eventsOf inside) = (parts c.source inside).foldl absorb c) :
    b.run (Nesting.pair t a inside z).events = b.absorb ((Nesting.pair t a inside z).part b.source) := by
  have hrun : b.run (Nesting.pair t a inside z).events =
      (((b.around t a).push (frameOf t a)).run (eventsOf inside)).step .stop z := by
    rw [Nesting.events, run, List.foldl_cons, List.foldl_append, step, if_pos (hb b.top (List.mem_cons_self ..))]
    rfl
  have hc := hb.around t a
  rw [hrun, absorb_pair, ← source_around b t a]
  -- from here on nothing is known of the frames around but that none keeps text
  generalize b.around t a = c at hc ⊢
  cases hm : t.making with
  | value => exact run_pair_kept (.inl hm) c a z inside _
  | alt => exact run_pair_kept (.inr hm) c a z inside _
  | item =>
    rw [ih (hc.push (f := frameOf t a) (by simp [frameOf, opened_of_item hm]))]
    exact run_pair_item hm hc a z _ (block_parts c.source inside)
  | children =>
    rw [ih (hc.push (f := frameOf t a) (opened_of_children hm).1)]
    exact run_pair_children hm hc a z _ _

mutual
theorem run_events : (x : Nesting) → ∀ {b : Builder}, b.Gathers → b.run x.events = b.absorb (x.part b.source)
  | .leaf _ _ h, _, hb => step_leaf hb h
  | .pair t a inside z, _, hb => run_pair hb t a z inside (run_eventsOf inside)

/-- The events of several nestings are taken one nesting after the other. -/
theorem run_eventsOf : (xs : List Nesting) → ∀ {b : Builder}, b.Gathers →
    b.run (eventsOf xs) = (parts b.source xs).foldl absorb b
  | [], _, _ => rfl
  | x :: xs, b, hb => by
    rw [Nesting.eventsOf, run_append, run_events x hb, run_eventsOf xs (hb.absorb _), source_absorb]
    rfl
end

end Builder

/-! ### The whole tree -/

theorem ofEvents_eventsOf (source : Source) (xs : List Nesting) :
    Node.ofEvents source (Nesting.eventsOf xs) = Nesting.tree source xs := by
  let root : Builder.Frame := { node := Node.parent .root [], start := 0 }
  have hrun : (Builder.init source).run (Nesting.eventsOf xs) =
      ⟨source, root.filled ((Nesting.parts source xs).filterMap (·.node)), []⟩ := by
    have hgathers : (Builder.init source).Gathers := by simp [Builder.Gathers, Builder.init]
    have hfold : (Nesting.parts source xs).foldl Builder.absorb ⟨source, root.filled [], []⟩ =
        ⟨source, root.filled ((Nesting.parts source xs).filterMap (·.node)), []⟩ := by
      rw [Builder.foldl_absorb_plain (by simp [root, Node.parent]) rfl, Builder.checkAll_nil, List.nil_append]
    rw [Builder.Frame.filled_nil (by rfl)] at hfold
    rw [Builder.run_eventsOf xs hgathers]
    exact hfold
  rw [Node.ofEvents, hrun, Builder.finish, Builder.closeImplicit_of_explicit rfl]
  rfl

/-- Balanced events are those of nestings, and the builder computes the tree of these. -/
theorem Node.ofEvents_of_balanced {es : List (Event × Span)} (h : Balanced 0 es) (source : Source) :
    (∃ xs, Nesting.eventsOf xs = es) ∧
      ∀ xs, Nesting.eventsOf xs = es → Node.ofEvents source es = Nesting.tree source xs := by
  refine ⟨Nesting.exists_nestings_of_balanced h, ?_⟩
  rintro xs rfl
  exact ofEvents_eventsOf source xs

/-- A task on two lines, the second of which ends with an image. -/
def taskNestings : List Nesting := [
  .pair (.list none) ⟨0, 22⟩ [
    .pair .item ⟨0, 22⟩ [
      .leaf (.taskMarker true) ⟨2, 5⟩ rfl, .leaf (.text "a") ⟨6, 7⟩ rfl, .leaf .softBreak ⟨7, 8⟩ rfl,
      .leaf (.text "b ") ⟨10, 12⟩ rfl,
      .pair (.image "u" "") ⟨12, 21⟩ [
        .pair .emphasis ⟨14, 17⟩ [.leaf (.text "c") ⟨15, 16⟩ rfl] ⟨14, 17⟩] ⟨12, 21⟩] ⟨0, 22⟩] ⟨0, 22⟩]

def taskTree : Node :=
  (Node.parent .root [
    ((Node.parent .list [
      ((Node.parent .listItem [
        (Node.parent .paragraph [
          (Node.literal .text "a\nb ").placed 6 12,
          (((Node.void .image).withData "url" "u").withData "alt" "c").placed 12 21]).placed 6 21]).withData
        "checked" true).placed 0 21]).withData "ordered" false).placed 0 21]).placed 0 22

theorem ofEvents_taskNestings : Balanced 0 (Nesting.eventsOf taskNestings) ∧
    Node.ofEvents (Source.ofString "- [x] a\n  b ![*c*](u)\n") (Nesting.eventsOf taskNestings) = taskTree := by
  have h : Balanced 0 (Nesting.eventsOf taskNestings) := by rfl
  refine ⟨h, ((Node.ofEvents_of_balanced h _).2 taskNestings rfl).trans ?_⟩
  decide +kernel

end RichDoc
