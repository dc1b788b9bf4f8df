import RichDoc.Proofs.Tree.Nesting

/-!
# What one part does to the builder

All events of a nesting together do to the builder what its part says (`Builder.absorb`): end a row or open one, set the
markers, add a node. Here a frame takes parts one after another. In a list item the open paragraph stands for the row
that is not ended yet (`foldl_absorb_item`); in all other frames nodes follow one another and the markers are for a
frame further out (`foldl_absorb_plain`).
-/

namespace RichDoc

/-! ### Texts side by side -/

namespace Node
variable {m n : Node}

/-- A node behind others; a text goes into a text that comes last. -/
def put : List Node → Node → List Node
  | [], n => [n]
  | [m], n => if m.isText && n.isText then [joinText m n] else [m, n]
  | m :: k :: r, n => m :: put (k :: r) n

theorem put_concat (l : List Node) (m n : Node) :
    put (l ++ [m]) n = l ++ if m.isText && n.isText then [joinText m n] else [m, n] := by
  induction l with
  | nil => rfl
  | cons k r ih =>
    cases r with
    | nil => rfl
    | cons k' r => exact congrArg (k :: ·) ih

theorem put_of_not_isText (h : n.isText = false) (l : List Node) : put l n = l ++ [n] := by
  rcases List.eq_nil_or_concat l with rfl | ⟨l, m, rfl⟩
  · rfl
  · simp [put_concat, h]

theorem isText_joinText (h : m.isText = true) : (joinText m n).isText = true := by
  simp only [isText, Bool.and_eq_true] at h
  simp [isText, joinText, h.1]

theorem joinText_assoc (m k n : Node) : joinText m (joinText k n) = joinText (joinText m k) n := by
  have hcover : ∀ a b c : Option Span, a.merge Span.cover (b.merge Span.cover c) =
      (a.merge Span.cover b).merge Span.cover c := by
    intro a b c
    cases a <;> cases b <;> cases c <;> simp [Span.cover, Nat.min_assoc, Nat.max_assoc]
  simp [joinText, hcover, String.append_assoc]

/-- It is the same to put a node in front first or another behind. -/
theorem glue_put (m : Node) (l : List Node) (n : Node) : glue m (put l n) = put (glue m l) n := by
  match l with
  | [] => rfl
  | [k] =>
    by_cases hk : k.isText = true
    · by_cases hm : m.isText = true
      · by_cases hn : n.isText = true
        · simp [put, glue, hk, hm, hn, isText_joinText, joinText_assoc]
        · simp [put, glue, hk, hm, hn]
      · by_cases hn : n.isText = true <;> simp [put, glue, hk, hm, hn]
    · simp [put, glue, hk]
  | k :: k' :: r =>
    by_cases h : (m.isText && k.isText) = true <;> simp [put, glue, h]

theorem joinTexts_concat (l : List Node) (n : Node) : joinTexts (l ++ [n]) = put (joinTexts l) n := by
  induction l with
  | nil => rfl
  | cons m r ih =>
    show glue m (joinTexts (r ++ [n])) = put (glue m (joinTexts r)) n
    rw [ih, glue_put]

end Node

namespace Builder
open Node (put joinTexts)

variable {b : Builder} {f g : Frame} {fs : List Frame} {source : Source} {n : Node} {c : Bool} {cs : List Bool}

/-! ### One node -/

/-- The frame with a node more. -/
def Frame.add (f : Frame) (n : Node) : Frame :=
  { f with node := { f.node with children := some (put f.node.childList n) } }

theorem Frame.append_eq (h : n.isText = false) (f : Frame) : f.append n = f.add n := by
  rw [append, add, Node.put_of_not_isText h]

theorem Frame.addText_eq (f : Frame) (s : String) (r : Span) :
    f.addText s r = f.add ((Node.literal .text s).placed r.start r.stop) := by
  unfold addText
  rcases List.eq_nil_or_concat f.node.childList with h | ⟨l, m, h⟩
  · rw [h, add, h]
    simp [append, h, put]
  · rw [List.concat_eq_append] at h
    rw [h, add, h, Node.put_concat, List.reverse_append]
    obtain ⟨k, v, ns, p, d⟩ := m
    by_cases hk : k = .text
    · subst hk
      cases v with
      | none => simp [append, h, Node.isText]
      | some v => cases p <;> simp [Node.isText, Node.joinText, Node.literal, Node.placed]
    · split
      · next heq => simp at heq; exact absurd heq.1.1 hk
      · simp [append, h, Node.isText, hk]

/-! ### Task markers -/

/-- Sets `checked` on the innermost list item. -/
def mark (b : Builder) (c : Bool) : Builder :=
  match check c (b.top :: b.below) with
  | f :: fs => { b with top := f, below := fs }
  | [] => b

def marks (b : Builder) (cs : List Bool) : Builder := cs.foldl mark b

theorem check_cons_of_ne (h : g.node.kind ≠ .listItem) : check c (g :: fs) = g :: check c fs := by
  simp [check, h]

theorem mark_of_ne (h : g.node.kind ≠ .listItem) : mark ⟨source, g, fs⟩ c = ⟨source, g, check c fs⟩ := by
  simp [mark, check_cons_of_ne h]

def checkAll (cs : List Bool) (fs : List Frame) : List Frame := cs.foldl (fun fs c => check c fs) fs

theorem checkAll_nil (cs : List Bool) : checkAll cs [] = [] := by
  induction cs with
  | nil => rfl
  | cons c cs ih => exact ih

/-- Markers pass by what is no list item. -/
theorem marks_of_ne (h : g.node.kind ≠ .listItem) : marks ⟨source, g, fs⟩ cs = ⟨source, g, checkAll cs fs⟩ := by
  induction cs generalizing fs with
  | nil => rfl
  | cons c cs ih =>
    show marks (mark ⟨source, g, fs⟩ c) cs = _
    rw [mark_of_ne h, ih]
    rfl

theorem marks_push (h : f.node.kind ≠ .listItem) (b : Builder) (cs : List Bool) :
    (b.push f).marks cs = (b.marks cs).push f := by
  induction cs generalizing b with
  | nil => rfl
  | cons c cs ih =>
    show marks (mark (b.push f) c) cs = (marks (mark b c) cs).push f
    rw [← ih]
    congr 1
    obtain ⟨source, g, fs⟩ := b
    rw [push, mark_of_ne h, push]
    by_cases hk : g.node.kind = .listItem
    · simp [mark, check, hk]
    · simp [mark, check, hk]

/-- The frame with further children and with markers set. -/
def Frame.extend (f : Frame) (ns : List Node) (cs : List Bool) : Frame :=
  { f with node := { f.node with
    children := some (f.node.childList ++ ns)
    data := cs.foldl (fun d c => d.insert "checked" (.bool c)) f.node.data } }

theorem Frame.extend_nil (h : f.node.children.isSome = true) : f.extend [] [] = f := by
  obtain ⟨⟨k, v, ns, p, d⟩, start, collect, buffer, swallowed, implicit⟩ := f
  obtain ⟨ns, rfl⟩ := Option.isSome_iff_exists.1 h
  simp [extend, Node.childList]

theorem Frame.extend_extend (f : Frame) (ns ms : List Node) (cs ds : List Bool) :
    (f.extend ns cs).extend ms ds = f.extend (ns ++ ms) (cs ++ ds) := by
  simp [extend, Node.childList]

theorem marks_of_item (h : g.node.kind = .listItem) (hc : g.node.children.isSome = true) :
    marks ⟨source, g, fs⟩ cs = ⟨source, g.extend [] cs, fs⟩ := by
  induction cs generalizing g with
  | nil => rw [Frame.extend_nil hc]; rfl
  | cons c cs ih =>
    have hmark : mark ⟨source, g, fs⟩ c = ⟨source, g.extend [] [c], fs⟩ := by
      obtain ⟨⟨k, v, ns, p, d⟩, start, collect, buffer, swallowed, implicit⟩ := g
      obtain ⟨ns, rfl⟩ := Option.isSome_iff_exists.1 hc
      obtain rfl : k = .listItem := h
      simp [mark, check, Frame.extend, Node.withData, Node.childList]
    show marks (mark ⟨source, g, fs⟩ c) cs = _
    rw [hmark, ih (by exact h) (by rfl), Frame.extend_extend]
    rfl

/-! ### One part -/

/-- Takes all events of a nesting at once. -/
def absorb (b : Builder) (p : Nesting.Part) : Builder :=
  match p.node with
  | none => b.marks p.checks
  | some n =>
    let b := (if p.isBlock then b.closeImplicit else b.ensureInline p.start).marks p.checks
    { b with top := b.top.add n }

/-- No frame keeps text. -/
def Gathers (b : Builder) : Prop := ∀ f ∈ b.top :: b.below, f.collect = .children

theorem Gathers.push (h : b.Gathers) (hf : f.collect = .children) : (b.push f).Gathers :=
  List.forall_mem_cons.2 ⟨hf, h⟩

theorem Gathers.ensureInline (h : b.Gathers) (start : Nat) : (b.ensureInline start).Gathers := by
  unfold Builder.ensureInline
  split
  · exact h.push rfl
  · exact h

theorem gathers_closeImplicitFrom {top : Frame} (ht : top.collect = .children)
    (hfs : ∀ f ∈ fs, f.collect = .children) :
    ∀ f ∈ (closeImplicitFrom top fs).1 :: (closeImplicitFrom top fs).2, f.collect = .children := by
  induction fs generalizing top with
  | nil => simpa [closeImplicitFrom] using ht
  | cons f fs ih =>
    obtain ⟨hf, hfs⟩ := List.forall_mem_cons.1 hfs
    rw [closeImplicitFrom]
    split
    · exact ih hf hfs
    · exact List.forall_mem_cons.2 ⟨ht, List.forall_mem_cons.2 ⟨hf, hfs⟩⟩

theorem Gathers.closeImplicit (h : b.Gathers) : b.closeImplicit.Gathers := by
  obtain ⟨ht, hfs⟩ := List.forall_mem_cons.1 h
  exact gathers_closeImplicitFrom ht hfs

theorem gathers_check (h : ∀ f ∈ fs, f.collect = .children) : ∀ f ∈ check c fs, f.collect = .children := by
  induction fs with
  | nil => simp [check]
  | cons f fs ih =>
    obtain ⟨hf, hfs⟩ := List.forall_mem_cons.1 h
    rw [check]
    split
    · exact List.forall_mem_cons.2 ⟨hf, hfs⟩
    · exact List.forall_mem_cons.2 ⟨hf, ih hfs⟩

theorem Gathers.marks (h : b.Gathers) (cs : List Bool) : (b.marks cs).Gathers := by
  induction cs generalizing b with
  | nil => exact h
  | cons c cs ih =>
    refine ih ?_
    have hcheck := gathers_check (c := c) h
    unfold mark
    split
    · next f fs heq => rwa [heq] at hcheck
    · exact h

theorem Gathers.absorb (h : b.Gathers) (p : Nesting.Part) : (b.absorb p).Gathers := by
  have hopen : (if p.isBlock then b.closeImplicit else b.ensureInline p.start).Gathers := by
    split
    · exact h.closeImplicit
    · exact h.ensureInline p.start
  unfold Builder.absorb
  cases p.node with
  | none => exact h.marks p.checks
  | some n =>
    obtain ⟨ht, hfs⟩ := List.forall_mem_cons.1 (hopen.marks p.checks)
    exact List.forall_mem_cons.2 ⟨ht, hfs⟩

theorem source_ensureInline (b : Builder) (start : Nat) : (b.ensureInline start).source = b.source := by
  unfold ensureInline
  split <;> rfl

theorem source_marks (b : Builder) (cs : List Bool) : (b.marks cs).source = b.source := by
  induction cs generalizing b with
  | nil => rfl
  | cons c cs ih =>
    refine (ih (b.mark c)).trans ?_
    unfold mark
    split <;> rfl

theorem source_absorb (b : Builder) (p : Nesting.Part) : (b.absorb p).source = b.source := by
  unfold absorb
  split
  · exact source_marks b p.checks
  · refine (source_marks _ _).trans ?_
    split
    · rfl
    · exact source_ensureInline b p.start

theorem Gathers.foldl_absorb (h : b.Gathers) (ps : List Nesting.Part) : (ps.foldl Builder.absorb b).Gathers := by
  induction ps generalizing b with
  | nil => exact h
  | cons p ps ih => exact ih (h.absorb p)

theorem source_foldl_absorb (b : Builder) (ps : List Nesting.Part) : (ps.foldl absorb b).source = b.source := by
  induction ps generalizing b with
  | nil => rfl
  | cons p ps ih => exact (ih (b.absorb p)).trans (source_absorb b p)

/-! ### A frame that gathers nodes one after the other -/

variable {p : Nesting.Part} {ps qs : List Nesting.Part} {ns : List Node}

theorem closeImplicit_of_explicit (h : g.implicit = false) : closeImplicit ⟨source, g, fs⟩ = ⟨source, g, fs⟩ := by
  cases fs <;> simp [closeImplicit, closeImplicitFrom, h]

/-- The frame with nodes for children. -/
def Frame.filled (f : Frame) (ns : List Node) : Frame :=
  { f with node := { f.node with children := some (joinTexts ns) } }

theorem Frame.filled_add (f : Frame) (ns : List Node) (n : Node) : (f.filled ns).add n = f.filled (ns ++ [n]) := by
  simp [add, filled, Node.childList, Node.joinTexts_concat]

theorem Frame.filled_nil (h : f.node.children = some []) : f.filled [] = f := by
  obtain ⟨⟨k, v, ns, p, d⟩, start, collect, buffer, swallowed, implicit⟩ := f
  obtain rfl : ns = some [] := h
  rfl

/-- Where no item is, nodes follow one another and markers go further out. -/
theorem foldl_absorb_plain (hk : g.node.kind ≠ .listItem) (hi : g.implicit = false) :
    ps.foldl absorb ⟨source, g.filled ns, fs⟩ =
      ⟨source, g.filled (ns ++ ps.filterMap (·.node)), checkAll (ps.flatMap (·.checks)) fs⟩ := by
  induction ps generalizing ns fs with
  | nil => simp [checkAll]
  | cons p ps ih =>
    have habsorb : absorb ⟨source, g.filled ns, fs⟩ p =
        ⟨source, g.filled (ns ++ p.node.toList), checkAll p.checks fs⟩ := by
      have hopen : (if p.isBlock then closeImplicit ⟨source, g.filled ns, fs⟩
          else ensureInline ⟨source, g.filled ns, fs⟩ p.start) = ⟨source, g.filled ns, fs⟩ := by
        split
        · exact closeImplicit_of_explicit hi
        · exact if_neg hk
      unfold absorb
      cases p.node with
      | none =>
        show marks _ _ = _
        rw [marks_of_ne (by exact hk), Option.toList_none, List.append_nil]
      | some n =>
        simp only [hopen]
        rw [marks_of_ne (by exact hk), Frame.filled_add]
        rfl
    rw [List.foldl_cons, habsorb, ih, List.append_assoc]
    cases hn : p.node <;> simp [hn, checkAll]

/-! ### A frame of a list item -/

theorem make_eq (i j : Nat) : Span.make i (max j i) = ⟨i, max j i⟩ := if_pos (Nat.le_max_right j i)

/-- A paragraph that no event opened. -/
def paragraphFrame (start : Nat) (ns : List Node) : Frame :=
  { node := Node.parent .paragraph ns, start, implicit := true }

theorem max_childrenStop_paragraphFrame (start : Nat) (ns : List Node) :
    max (paragraphFrame start ns).childrenStop start = (ns.filterMap (·.span.map Span.stop)).foldl max start := by
  have hlist : (paragraphFrame start ns).node.childList = ns := rfl
  rw [Frame.childrenStop, hlist]
  split
  · next h =>
    rw [h]
    exact Nat.max_self start
  · next e es h => rw [h, List.foldl_cons, List.foldl_assoc, Nat.max_comm]

theorem close_paragraphFrame (start : Nat) (ns : List Node) :
    (paragraphFrame start ns).close (paragraphFrame start ns).childrenStop = Nesting.paragraphAt start ns := by
  rw [Nesting.paragraphAt, ← max_childrenStop_paragraphFrame, ← make_eq]
  rfl

theorem paragraphFrame_add (start : Nat) (ns : List Node) (n : Node) :
    (paragraphFrame start (joinTexts ns)).add n = paragraphFrame start (joinTexts (ns ++ [n])) := by
  rw [Node.joinTexts_concat]
  rfl

/-- Markers in a paragraph that no event opened are for the item around it. -/
theorem marks_paragraphFrame (hk : g.node.kind = .listItem) (hc : g.node.children.isSome = true) (start : Nat)
    (cs : List Bool) :
    marks ⟨source, paragraphFrame start ns, g :: fs⟩ cs =
      ⟨source, paragraphFrame start ns, g.extend [] cs :: fs⟩ := by
  have hne : (paragraphFrame start ns).node.kind ≠ .listItem := by simp [paragraphFrame, Node.parent]
  have hpush := marks_push hne ⟨source, g, fs⟩ cs
  rw [marks_of_item hk hc] at hpush
  exact hpush

open Nesting (rows Row)

/-- The frames of a list item with a row of parts that is not ended. -/
def itemWith (source : Source) (g : Frame) (fs : List Frame) (qs : List Nesting.Part) : Builder :=
  match qs.find? (·.node.isSome) with
  | some q => ⟨source, paragraphFrame q.start (joinTexts (qs.filterMap (·.node))), g :: fs⟩
  | none => ⟨source, g, fs⟩

theorem rows_append_block (hp : p.isBlock = true) (qs : List Nesting.Part) :
    rows (qs ++ p :: ps) = rows qs ++ .block p :: rows ps := by
  induction qs with
  | nil => simp [rows, hp]
  | cons q qs ih =>
    rw [List.cons_append, rows, rows, ih]
    split
    · rfl
    · cases rows qs with
      | nil => rfl
      | cons r rs => cases r <;> rfl

theorem rows_of_inline (hqs : ∀ q ∈ qs, q.isBlock = false) (hne : qs ≠ []) : rows qs = [.inline qs] := by
  induction qs with
  | nil => exact absurd rfl hne
  | cons q qs ih =>
    obtain ⟨hq, hqs⟩ := List.forall_mem_cons.1 hqs
    rw [rows, hq]
    cases qs with
    | nil => rfl
    | cons q' qs => rw [ih hqs (by simp)]; rfl

theorem closeImplicit_itemWith (hi : g.implicit = false) (hc : g.node.children.isSome = true)
    (hqs : ∀ q ∈ qs, q.isBlock = false) :
    (itemWith source g fs qs).closeImplicit = ⟨source, g.extend ((rows qs).flatMap Row.nodes) [], fs⟩ := by
  have hnodes : (rows qs).flatMap Row.nodes = (Row.inline qs).nodes := by
    by_cases hne : qs = []
    · subst hne
      rfl
    · rw [rows_of_inline hqs hne, List.flatMap_singleton]
  rw [hnodes, itemWith, Row.nodes]
  cases qs.find? (·.node.isSome) with
  | none => rw [Frame.extend_nil hc]; exact closeImplicit_of_explicit hi
  | some q =>
    have hstep : closeImplicit ⟨source, paragraphFrame q.start (joinTexts (qs.filterMap (·.node))), g :: fs⟩ =
        closeImplicit ⟨source, g.extend [Nesting.paragraphAt q.start (joinTexts (qs.filterMap (·.node)))] [], fs⟩ := by
      rw [← close_paragraphFrame]
      rfl
    exact hstep.trans (closeImplicit_of_explicit hi)

theorem absorb_itemWith_block (hk : g.node.kind = .listItem) (hi : g.implicit = false)
    (hc : g.node.children.isSome = true) (hqs : ∀ q ∈ qs, q.isBlock = false) (hp : p.isBlock = true)
    (hn : p.node = some n) (ht : n.isText = false) :
    (itemWith source g fs qs).absorb p =
      itemWith source (g.extend ((rows qs).flatMap Row.nodes ++ [n]) p.checks) fs [] := by
  unfold absorb
  simp only [hn, hp, if_true, closeImplicit_itemWith hi hc hqs]
  rw [marks_of_item (by exact hk) (by rfl), Frame.extend_extend, ← Frame.append_eq ht]
  show (⟨source, (g.extend _ _).extend [n] [], fs⟩ : Builder) = _
  rw [Frame.extend_extend]
  simp [itemWith]

theorem absorb_itemWith_inline (hk : g.node.kind = .listItem) (hc : g.node.children.isSome = true)
    (hp : p.isBlock = false) :
    (itemWith source g fs qs).absorb p = itemWith source (g.extend [] p.checks) fs (qs ++ [p]) := by
  unfold absorb itemWith
  rw [List.find?_append, List.filterMap_append]
  cases hq : qs.find? (·.node.isSome) with
  | none =>
    -- a paragraph is opened by the first part that has a node
    have hnone : qs.filterMap (·.node) = [] := by
      rw [List.filterMap_eq_nil_iff]
      intro q hmem
      simpa using List.find?_eq_none.1 hq q hmem
    cases hn : p.node with
    | none => simp [hn, marks_of_item hk hc]
    | some n =>
      have hopen : ensureInline ⟨source, g, fs⟩ p.start = ⟨source, paragraphFrame p.start [], g :: fs⟩ := if_pos hk
      simp only [hp, Bool.false_eq_true, if_false, hopen, marks_paragraphFrame hk hc]
      simp [hn, hnone]
      exact paragraphFrame_add p.start [] n
  | some q =>
    cases hn : p.node with
    | none => simp [hn, marks_paragraphFrame hk hc]
    | some n =>
      have hopen : ∀ ns, ensureInline ⟨source, paragraphFrame q.start ns, g :: fs⟩ p.start =
          ⟨source, paragraphFrame q.start ns, g :: fs⟩ := fun ns => if_neg (by simp [paragraphFrame, Node.parent])
      simp only [hp, Bool.false_eq_true, if_false, hopen, marks_paragraphFrame hk hc]
      simp [hn]
      exact paragraphFrame_add _ _ _

/-- In an item the rows become paragraphs and blocks, and the markers are its own. -/
theorem foldl_absorb_item (hk : g.node.kind = .listItem) (hi : g.implicit = false)
    (hc : g.node.children.isSome = true) (hqs : ∀ q ∈ qs, q.isBlock = false)
    (hps : ∀ p ∈ ps, p.isBlock = true → ∃ n, p.node = some n ∧ n.isText = false) :
    (ps.foldl absorb (itemWith source g fs qs)).closeImplicit =
      ⟨source, g.extend ((rows (qs ++ ps)).flatMap Row.nodes) (ps.flatMap (·.checks)), fs⟩ := by
  induction ps generalizing g qs with
  | nil =>
    rw [List.foldl_nil, closeImplicit_itemWith hi hc hqs, List.append_nil]
    rfl
  | cons p ps ih =>
    obtain ⟨hp, hps⟩ := List.forall_mem_cons.1 hps
    rw [List.foldl_cons]
    cases hb : p.isBlock with
    | true =>
      obtain ⟨n, hn, ht⟩ := hp hb
      rw [absorb_itemWith_block hk hi hc hqs hb hn ht, ih (by exact hk) (by exact hi) (by rfl) (by simp) hps,
        Frame.extend_extend, rows_append_block hb]
      simp [Row.nodes, hn]
    | false =>
      have hqs : ∀ q ∈ qs ++ [p], q.isBlock = false := by
        intro q hq
        rcases List.mem_append.1 hq with hq | hq
        · exact hqs q hq
        · rwa [List.mem_singleton.1 hq]
      rw [absorb_itemWith_inline hk hc hb, ih (by exact hk) (by exact hi) (by rfl) hqs hps, Frame.extend_extend,
        List.append_assoc]
      rfl

end Builder
end RichDoc
