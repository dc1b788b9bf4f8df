import Mathlib.Data.List.Chain
import RichDoc.Proofs.Tree.Building

/-!
# Trees from any events

Events need not be balanced: a stop may come with nothing open, inside a construct that keeps text, or not at all. What
the builder makes of them is tidy all the same (`Node.Tidy`). No list item has inline content of its own, no two texts
stand side by side, and all nodes below the root have spans in order.

`Builder.Stacked` describes the open nodes of every state: each is tidy so far and may become a child of the one that it
was opened in, and the outermost is the root with which the builder started, so that there is one whenever the innermost
is asked for and closing paragraphs that no event opened ends there at last. Each event keeps this (`Stacked.step`),
hence every run does (`Stacked.run`), and closing all gives a tidy tree (`Stacked.finish`).
-/

namespace RichDoc
open Markdown (Event Tag)

/-- What stands in a line of text, formulas and the like apart. -/
def Kind.isInline (k : Kind) : Bool :=
  k ∈ [.text, .emphasis, .strong, .delete, .link, .image, .break, .inlineCode]

namespace Node
variable {m n c : Node}

/-- Texts do not stand side by side. -/
def Apart (a b : Node) : Prop := ¬(a.kind = .text ∧ b.kind = .text)

/-- A list item has no inline content of its own, texts do not stand side by side, children have spans in order, and
texts among them have values. -/
structure TidyAt (n : Node) : Prop where
  item : n.kind = .listItem → ∀ c ∈ n.childList, c.kind.isInline = false
  apart : n.childList.IsChain Apart
  placed : ∀ c ∈ n.childList, ∃ p ∈ c.span, p.start ≤ p.stop
  valued : ∀ c ∈ n.childList, c.kind = .text → c.value.isSome = true

/-- All nodes of the tree are tidy. -/
def Tidy (n : Node) : Prop := ∀ e ∈ n.nodes, e.TidyAt

theorem Tidy.child (h : n.Tidy) (hc : c ∈ n.childList) : c.Tidy := forall_child h hc

theorem Tidy.self (h : n.Tidy) : n.TidyAt := h n n.self_mem_nodes

theorem tidy_of_childless (h : n.childList = []) : n.Tidy := by
  refine forall_nodes.2 ⟨⟨?_, ?_, ?_, ?_⟩, ?_⟩ <;> simp [h]

/-- Kind and children say whether a tree is tidy. -/
theorem Tidy.congr (h : n.Tidy) (hkind : m.kind = n.kind) (hchildren : m.childList = n.childList) : m.Tidy := by
  obtain ⟨⟨hitem, hapart, hplaced, hvalued⟩, hbelow⟩ := forall_nodes.1 h
  refine forall_nodes.2 ⟨⟨?_, ?_, ?_, ?_⟩, ?_⟩ <;> rw [hchildren]
  · rwa [hkind]
  · exact hapart
  · exact hplaced
  · exact hvalued
  · exact hbelow

/-- The node may become a child of a node of kind `k`. -/
structure Fits (k : Kind) (c : Node) : Prop where
  tidy : c.Tidy
  placed : ∃ p ∈ c.span, p.start ≤ p.stop
  valued : c.kind = .text → c.value.isSome = true
  item : k = .listItem → c.kind.isInline = false

/-- A node goes behind the others, or into a text that comes last. -/
theorem put_cases {l : List Node} (hl : ∀ k ∈ l, k.kind = .text → k.value.isSome = true)
    (hc : c.kind = .text → c.value.isSome = true) :
    (put l c = l ++ [c] ∧ ∀ k ∈ l.getLast?, k.Apart c) ∨ ∃ r k, l = r ++ [k] ∧ put l c = r ++ [joinText k c] := by
  rcases List.eq_nil_or_concat l with rfl | ⟨r, k, rfl⟩
  · exact .inl ⟨rfl, by simp⟩
  · rw [List.concat_eq_append] at hl ⊢
    rw [put_concat, List.getLast?_concat]
    split
    · exact .inr ⟨r, k, rfl, rfl⟩
    · next h =>
      refine .inl ⟨by simp, fun k' hk' => ?_⟩
      obtain rfl := Option.some.inj hk'
      rintro ⟨hk, hck⟩
      exact h (by simp [isText, hk, hck, hl k (by simp) hk, hc hck])

/-- A text that goes on stays where it was. -/
theorem Fits.joinText {k : Kind} (hm : m.Fits k) (hn : ∃ p ∈ n.span, p.start ≤ p.stop) : (joinText m n).Fits k where
  tidy := hm.tidy.congr rfl rfl
  placed := by
    obtain ⟨p, hp, hle⟩ := hm.placed
    obtain ⟨q, hq, hle'⟩ := hn
    have hp : m.span = some p := hp
    have hq : n.span = some q := hq
    refine ⟨p.cover q, by simp [Node.joinText, hp, hq], ?_⟩
    simp only [Span.cover]
    omega
  valued _ := rfl
  item := hm.item

theorem tidy_of_fits (hchildren : ∀ c ∈ n.childList, c.Fits n.kind) (hapart : n.childList.IsChain Apart) : n.Tidy :=
  forall_nodes.2 ⟨⟨fun hk c hc => (hchildren c hc).item hk, hapart, fun c hc => (hchildren c hc).placed,
    fun c hc => (hchildren c hc).valued⟩, fun c hc => (hchildren c hc).tidy⟩

theorem Tidy.fits (h : n.Tidy) (hc : c ∈ n.childList) : c.Fits n.kind :=
  ⟨h.child hc, h.self.placed c hc, h.self.valued c hc, fun hk => h.self.item hk c hc⟩

/-- A tidy node stays so when its children get one more that fits. -/
theorem Tidy.put (h : n.Tidy) (hc : c.Fits n.kind) (hkind : m.kind = n.kind) (hm : m.childList = put n.childList c) :
    m.Tidy := by
  rcases put_cases h.self.valued hc.valued with ⟨hput, hlast⟩ | ⟨r, k, hn, hput⟩
  · rw [hput] at hm
    refine tidy_of_fits ?_ ?_
    · rw [hm, hkind]
      exact List.forall_mem_append.2 ⟨fun d hd => h.fits hd, List.forall_mem_singleton.2 hc⟩
    · rw [hm]
      exact h.self.apart.append (.singleton c) fun k hk d hd => by
        obtain rfl := Option.some.inj hd
        exact hlast k hk
  · have hk : k ∈ n.childList := by simp [hn]
    have hapart : (r ++ [k]).IsChain Apart := hn ▸ h.self.apart
    rw [hput] at hm
    refine tidy_of_fits ?_ ?_
    · rw [hm, hkind]
      refine List.forall_mem_append.2 ⟨fun d hd => h.fits (by simp [hn, hd]), List.forall_mem_singleton.2 ?_⟩
      exact (h.fits hk).joinText hc.placed
    · rw [hm]
      exact hapart.left_of_append.append (.singleton _) fun d hd e he => by
        obtain rfl := Option.some.inj he
        exact (List.isChain_append.1 hapart).2.2 d hd k rfl

end Node

namespace Builder
variable {b : Builder} {f g : Frame} {fs : List Frame} {c : Node} {t : Tag} {stop : Nat}

/-! ### The open nodes -/

/-- The frame of the root. -/
structure Frame.IsBase (f : Frame) : Prop where
  kind : f.node.kind = .root
  start : f.start = 0
  collect : f.collect = .children
  implicit : f.implicit = false

/-- Open nodes, from the innermost outward: tidy so far, each fit for the one that it was opened in, the root last. -/
inductive Stacked : List Frame → Prop where
  | base {f : Frame} (tidy : f.node.Tidy) (isBase : f.IsBase) : Stacked [f]
  | push {f g : Frame} {fs : List Frame} (tidy : f.node.Tidy) (kind : f.node.kind ≠ .text)
    (item : g.node.kind = .listItem → f.node.kind.isInline = false) (below : Stacked (g :: fs)) : Stacked (f :: g :: fs)

def stack (b : Builder) : List Frame := b.top :: b.below

/-- The frame of the same node, with other contents. -/
structure Frame.Alike (g f : Frame) : Prop where
  kind : g.node.kind = f.node.kind
  start : g.start = f.start
  collect : g.collect = f.collect
  implicit : g.implicit = f.implicit

theorem Stacked.exists_base (h : Stacked fs) : ∃ f ∈ fs.getLast?, f.IsBase := by
  induction h with
  | base tidy isBase => exact ⟨_, rfl, isBase⟩
  | push tidy kind item below ih =>
    obtain ⟨f, hf, hbase⟩ := ih
    exact ⟨f, by rwa [List.getLast?_cons_cons], hbase⟩

theorem Stacked.tidy (h : Stacked (f :: fs)) : f.node.Tidy := by
  cases h <;> assumption

theorem Stacked.replace (h : Stacked (f :: fs)) (htidy : g.node.Tidy) (hg : g.Alike f) : Stacked (g :: fs) := by
  cases h with
  | base _ isBase =>
    exact .base htidy ⟨hg.kind.trans isBase.kind, hg.start.trans isBase.start, hg.collect.trans isBase.collect,
      hg.implicit.trans isBase.implicit⟩
  | push _ kind item below => exact .push htidy (hg.kind ▸ kind) (hg.kind ▸ item) below

theorem Stacked.add (h : Stacked (f :: fs)) (hc : c.Fits f.node.kind) : Stacked (f.add c :: fs) :=
  h.replace (h.tidy.put hc rfl rfl) ⟨rfl, rfl, rfl, rfl⟩

theorem kind_close (f : Frame) (stop : Nat) : (f.close stop).kind = f.node.kind := by
  unfold Frame.close
  cases f.collect <;> rfl

theorem childList_close (f : Frame) (stop : Nat) : (f.close stop).childList = f.node.childList := by
  unfold Frame.close
  cases f.collect <;> rfl

theorem span_close (f : Frame) (stop : Nat) : (f.close stop).span = some (Span.make f.start (max stop f.start)) := by
  unfold Frame.close
  cases f.collect <;> rfl

/-- The innermost node is closed and becomes a child of the next. -/
theorem Stacked.close (h : Stacked (f :: g :: fs)) (stop : Nat) : Stacked (g.append (f.close stop) :: fs) := by
  cases h with
  | push tidy kind item below =>
    have hkind : (f.close stop).kind ≠ .text := by rwa [kind_close]
    have hfits : (f.close stop).Fits g.node.kind := by
      refine ⟨tidy.congr (kind_close f stop) (childList_close f stop), ?_, fun h => absurd h hkind, fun hg => ?_⟩
      · exact ⟨_, span_close f stop, Span.make_ordered ..⟩
      · rw [kind_close]
        exact item hg
    rw [Frame.append_eq (by simp [Node.isText, hkind])]
    exact below.add hfits

theorem Stacked.closeTop (h : Stacked b.stack) (stop : Nat) : Stacked (b.closeTop stop).stack := by
  obtain ⟨source, f, _ | ⟨g, fs⟩⟩ := b
  · exact h
  · exact h.close stop

theorem Stacked.closeImplicit (h : Stacked b.stack) : Stacked b.closeImplicit.stack := by
  obtain ⟨source, f, fs⟩ := b
  show Stacked ((closeImplicitFrom f fs).1 :: (closeImplicitFrom f fs).2)
  replace h : Stacked (f :: fs) := h
  induction fs generalizing f with
  | nil => exact h
  | cons g fs ih =>
    rw [closeImplicitFrom]
    split
    · exact ih _ (h.close _)
    · exact h

/-! ### Inline content -/

theorem Stacked.ensureInline (h : Stacked b.stack) (start : Nat) :
    Stacked (b.ensureInline start).stack ∧ (b.ensureInline start).top.node.kind ≠ .listItem := by
  unfold Builder.ensureInline
  split
  · exact ⟨.push (Node.tidy_of_childless rfl) Kind.noConfusion (fun _ => rfl) h, Kind.noConfusion⟩
  · next hne => exact ⟨h, hne⟩

theorem fits_placed {k : Kind} (hk : k ≠ .listItem) (hc : c.childList = [])
    (hvalue : c.kind = .text → c.value.isSome = true) (i j : Nat) : (c.placed i j).Fits k where
  tidy := Node.tidy_of_childless hc
  placed := ⟨_, rfl, Span.make_ordered i j⟩
  valued := hvalue
  item h := absurd h hk

theorem Stacked.addInline (h : Stacked b.stack) (hc : c.childList = []) (hkind : c.kind ≠ .text) (r : Span) :
    Stacked (b.addInline c r).stack := by
  obtain ⟨hstacked, hne⟩ := h.ensureInline r.start
  show Stacked ((b.ensureInline r.start).top.append (c.placed r.start r.stop) :: _)
  rw [Frame.append_eq (by simp [Node.isText, Node.placed, hkind])]
  exact hstacked.add (fits_placed hne hc (fun h => absurd h hkind) ..)

theorem Stacked.addText (h : Stacked b.stack) (s : String) (r : Span) : Stacked (b.addText s r).stack := by
  obtain ⟨hstacked, hne⟩ := h.ensureInline r.start
  show Stacked ((b.ensureInline r.start).top.addText s r :: _)
  rw [Frame.addText_eq]
  exact hstacked.add (fits_placed hne rfl (fun _ => rfl) ..)

/-! ### One event -/

theorem childList_opened (t : Tag) : (opened t).1.childList = [] := by
  cases t with
  | codeBlock info => cases info <;> simp [opened, Node.childList, withData?_same, Node.literal]
  | _ => simp [opened, Node.childList, withData?_same, Node.withData, Node.parent, Node.literal, Node.void]

theorem isInline_opened (h : t.isInline = false) : (opened t).1.kind.isInline = false := by
  cases t with
  | codeBlock info => cases info <;> simp [opened, Kind.isInline, withData?_same, Node.literal]
  | emphasis | strong | strikethrough | link | image | superscript | subscript => simp [Tag.isInline] at h
  | _ => simp [opened, Kind.isInline, Node.withData, withData?_same, Node.parent, Node.literal]

theorem Stacked.start (h : Stacked b.stack) (t : Tag) (r : Span) : Stacked (b.start t r).stack := by
  have htidy : (opened t).1.Tidy := Node.tidy_of_childless (childList_opened t)
  cases ht : t.isInline with
  | true =>
    obtain ⟨hstacked, hne⟩ := h.ensureInline r.start
    have hstart : (b.start t r).stack = frameOf t r :: (b.ensureInline r.start).stack := by
      simp [Builder.start, ht, stack, Builder.push, frameOf]
    rw [hstart]
    exact .push htidy (opened_cases t).1 (fun hk => absurd hk hne) hstacked
  | false =>
    have hstart : (b.start t r).stack = frameOf t r :: b.closeImplicit.stack := by
      simp [Builder.start, ht, stack, Builder.push, frameOf]
    rw [hstart]
    exact .push htidy (opened_cases t).1 (fun _ => isInline_opened ht) h.closeImplicit

theorem Stacked.check (h : Stacked (f :: fs)) (checked : Bool) :
    ∃ g gs, check checked (f :: fs) = g :: gs ∧ g.node.kind = f.node.kind ∧ Stacked (g :: gs) := by
  induction fs generalizing f with
  | nil =>
    unfold Builder.check
    split
    · exact ⟨_, _, rfl, rfl, h.replace (h.tidy.congr rfl rfl) ⟨rfl, rfl, rfl, rfl⟩⟩
    · exact ⟨_, _, rfl, rfl, h⟩
  | cons g fs ih =>
    unfold Builder.check
    split
    · exact ⟨_, _, rfl, rfl, h.replace (h.tidy.congr rfl rfl) ⟨rfl, rfl, rfl, rfl⟩⟩
    · cases h with
      | push tidy kind item below =>
        obtain ⟨g', gs, hgs, hkind, hstacked⟩ := ih below
        rw [hgs]
        exact ⟨_, _, rfl, rfl, .push tidy kind (hkind ▸ item) hstacked⟩

/-- A frame that keeps text changes only what it has kept. -/
theorem Stacked.collectStep (h : Stacked b.stack) (e : Event) (r : Span) : Stacked (b.collectStep e r).stack := by
  unfold Builder.collectStep
  cases e with
  | stop =>
    dsimp only
    split
    · exact h.replace h.tidy ⟨rfl, rfl, rfl, rfl⟩
    · exact h.closeTop _
  | _ => exact h.replace h.tidy ⟨rfl, rfl, rfl, rfl⟩

theorem Stacked.childrenStep (h : Stacked b.stack) (e : Event) (r : Span) : Stacked (b.childrenStep e r).stack := by
  cases e with
  | start t => exact h.start t r
  | stop => exact h.closeImplicit.closeTop _
  | text s => exact h.addText s r
  | softBreak => exact h.addText "\n" r
  | rule =>
    have hfits :
        ((Node.void .thematicBreak).placed r.start (b.source.trimmedStop r)).Fits b.closeImplicit.top.node.kind :=
      ⟨Node.tidy_of_childless rfl, ⟨_, rfl, Span.make_ordered ..⟩, Kind.noConfusion, fun _ => rfl⟩
    show Stacked (b.closeImplicit.top.append _ :: _)
    rw [Frame.append_eq rfl]
    exact h.closeImplicit.add hfits
  | taskMarker checked =>
    obtain ⟨g, gs, hgs, -, hstacked⟩ := Stacked.check h checked
    unfold Builder.childrenStep
    simp only [hgs]
    exact hstacked
  | _ => exact h.addInline rfl Kind.noConfusion r

theorem Stacked.step (h : Stacked b.stack) (e : Event) (r : Span) : Stacked (b.step e r).stack := by
  unfold Builder.step
  split
  · exact h.childrenStep e r
  · exact h.collectStep e r

/-! ### All events -/

theorem Stacked.run (h : Stacked b.stack) (es : List (Event × Span)) : Stacked (b.run es).stack := by
  induction es generalizing b with
  | nil => exact h
  | cons e es ih => exact ih (h.step e.1 e.2)

theorem source_step (b : Builder) (e : Event) (r : Span) : (b.step e r).source = b.source := by
  have hclose : ∀ (c : Builder) (stop : Nat), (c.closeTop stop).source = c.source := fun c stop => by
    unfold Builder.closeTop
    split <;> rfl
  unfold Builder.step
  split
  · cases e with
    | start t => exact source_around b t r
    | stop => exact hclose _ _
    | rule => rfl
    | taskMarker checked =>
      unfold Builder.childrenStep
      dsimp only
      split <;> rfl
    | _ => exact source_ensureInline b r.start
  · unfold Builder.collectStep
    cases e with
    | stop =>
      dsimp only
      split
      · rfl
      · exact hclose _ _
    | _ => rfl

theorem source_run (b : Builder) (es : List (Event × Span)) : (b.run es).source = b.source := by
  induction es generalizing b with
  | nil => rfl
  | cons e es ih => exact (ih (b.step e.1 e.2)).trans (source_step b e.1 e.2)

theorem stacked_init (source : Source) : Stacked (init source).stack :=
  .base (Node.tidy_of_childless rfl) ⟨rfl, rfl, rfl, rfl⟩

theorem Stacked.closeAll (h : Stacked (f :: fs)) (stop : Nat) :
    (closeAll stop f fs).Tidy ∧ (closeAll stop f fs).kind = .root := by
  induction fs generalizing f with
  | nil =>
    obtain ⟨g, hg, hbase⟩ := h.exists_base
    obtain rfl := Option.some.inj hg
    exact ⟨h.tidy, hbase.kind⟩
  | cons g fs ih => exact ih (h.close stop)

theorem Stacked.finish (h : Stacked b.stack) : b.finish.Tidy ∧ b.finish.kind = .root := by
  obtain ⟨htidy, hkind⟩ := Stacked.closeAll h.closeImplicit b.source.size
  exact ⟨htidy.congr rfl rfl, hkind⟩

end Builder

/-- Any events, whether balanced or not, leave the root at the bottom of the open nodes and give a tree that spans the
source: no list item has inline content of its own, texts do not stand side by side, and all nodes below the root have
spans in order. -/
theorem Node.tidy_ofEvents (source : Source) (es : List (Event × Span)) :
    (∃ f ∈ ((Builder.init source).run es).stack.getLast?, Builder.Frame.IsBase f) ∧
      (Node.ofEvents source es).kind = .root ∧ (Node.ofEvents source es).span = some ⟨0, source.size⟩ ∧
      ∀ n ∈ (Node.ofEvents source es).nodes,
        (n.kind = .listItem → ∀ c ∈ n.childList,
          c.kind ∉ [.text, .emphasis, .strong, .delete, .link, .image, .break, .inlineCode]) ∧
        n.childList.IsChain (fun a b => ¬(a.kind = .text ∧ b.kind = .text)) ∧
        ∀ c ∈ n.childList, ∃ p ∈ c.span, p.start ≤ p.stop := by
  have hstacked := (Builder.stacked_init source).run es
  obtain ⟨htidy, hkind⟩ := hstacked.finish
  refine ⟨hstacked.exists_base, hkind, ?_, fun n hn => ⟨fun hitem c hc => ?_, (htidy n hn).apart, (htidy n hn).placed⟩⟩
  · show some (Span.make 0 ((Builder.init source).run es).source.size) = _
    rw [Builder.source_run, Builder.init, Span.make]
    simp
  · simpa [Kind.isInline] using (htidy n hn).item hitem c hc

end RichDoc
