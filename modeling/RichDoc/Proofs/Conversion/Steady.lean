import RichDoc.Proofs.Conversion.Grouping

/-!
# Steady rows of nests

A row of nests is `Nest.Steady` where each mark is opened as late as `Document.group` would close it and no mark
stands inside of one that it should stand around. On these rows grouping undoes closing (`group_docs`), and those
are the only rows that grouping gives (`steady_group`).
-/

namespace RichDoc

namespace Document
variable {d : Document} {ds : List Document} {m n : Mark} {ms : List Mark}

theorem takeWhile_append_of_head {p : Document → Bool} {xs ys : List Document} (hx : ∀ d ∈ xs, p d)
    (hy : ∀ d ∈ ys.head?, ¬ p d) : (xs ++ ys).takeWhile p = xs ∧ (xs ++ ys).dropWhile p = ys := by
  rw [List.takeWhile_append_of_pos hx, List.dropWhile_append_of_pos hx]
  cases ys with
  | nil => simp
  | cons d r => simp [hy d rfl]

theorem reach_append_of_head {xs ys : List Document} (hx : ∀ d ∈ xs, m ∈ d.marks)
    (hy : ∀ d ∈ ys.head?, m ∉ d.marks) : reach m (xs ++ ys) = xs.length := by
  rw [reach, (takeWhile_append_of_head (by simpa using hx) (by simpa using hy)).1]

theorem length_lt_reach {xs ys : List Document} (hx : ∀ d ∈ xs, m ∈ d.marks) (hd : d ∈ ys.head?)
    (hm : m ∈ d.marks) : xs.length < reach m (xs ++ ys) := by
  obtain ⟨r, rfl⟩ : ∃ r, ys = d :: r := by
    cases ys with
    | nil => simp at hd
    | cons e r =>
      simp only [List.head?_cons, Option.mem_def, Option.some.injEq] at hd
      exact ⟨r, by rw [hd]⟩
  rw [reach, List.takeWhile_append_of_pos (by simpa using hx)]
  simp [hm]

theorem reach_lt_length {xs ys : List Document} (h : ¬ ∀ d ∈ xs, m ∈ d.marks) :
    reach m (xs ++ ys) < xs.length := by
  induction xs with
  | nil => simp at h
  | cons d r ih =>
    by_cases hd : m ∈ d.marks
    · have hr := ih fun hr => h (List.forall_mem_cons.2 ⟨hd, hr⟩)
      simpa [reach, hd] using hr
    · simp [reach, hd]

theorem reach_le_reach {r : List Document} (h : ∀ e ∈ r.takeWhile (·.marks.contains m), n ∈ e.marks) :
    reach m r ≤ reach n r := by
  induction r with
  | nil => simp [reach]
  | cons e s ih =>
    by_cases hm : m ∈ e.marks
    · simp only [List.takeWhile_cons, List.contains_iff_mem, hm, if_true, List.forall_mem_cons] at h
      have := ih h.2
      simpa [reach, hm, h.1] using this
    · simp [reach, hm]

theorem farthest_eq_some {g : Grammar} (h : g.InRank ms) (hm : m ∈ ms)
    (hbest : ∀ n ∈ ms, n ≠ m → reach n ds < reach m ds ∨ reach n ds = reach m ds ∧ g.Outer m n) :
    farthest ds ms = some m := by
  cases hk : farthest ds ms with
  | none => simp [farthest_eq_none.1 hk] at hm
  | some k =>
    by_cases he : m = k
    · rw [he]
    · have h₁ := farthest_spec h hk m hm he
      have h₂ := hbest k (farthest_mem hk) fun h => he h.symm
      rcases h₁ with h₁ | ⟨h₁, ho₁⟩ <;> rcases h₂ with h₂ | ⟨h₂, ho₂⟩
      · omega
      · omega
      · omega
      · exact absurd ho₂ ho₁.asymm

end Document

namespace Grammar
variable {g : Grammar} {d : Document} {m : Mark}

theorem filter_insertMark {i : Nat} {ms : List Mark} (h : m ∉ ms) :
    (g.insertMark i m ms).filter (fun n => n ≠ m) = ms := by
  induction ms with
  | nil => simp [insertMark]
  | cons a r ih =>
    have ha : a ≠ m := fun he => h (he ▸ List.mem_cons_self ..)
    have hr : m ∉ r := fun hm => h (List.mem_cons_of_mem _ hm)
    have hkeep : r.filter (fun n => n ≠ m) = r :=
      List.filter_eq_self.2 fun n hn => by simpa using fun he : n = m => hr (he ▸ hn)
    unfold insertMark
    split
    · simpa [ha] using hkeep
    · simpa [ha] using ih hr

/-- A mark put on and taken off again leaves a document as it was that had none of its type. -/
theorem without_withMark (h : ∀ n ∈ d.marks, n.type ≠ m.type) : (g.withMark m d).without m = d := by
  have hkeep : d.marks.filter (fun n => n.type != m.type) = d.marks :=
    List.filter_eq_self.2 fun n hn => by simpa using h n hn
  have hm : m ∉ d.marks := fun hm => h m hm rfl
  simp only [withMark, Document.without, hkeep, filter_insertMark hm, Document.eta]

theorem map_without_withMark {ds : List Document} (h : ∀ d ∈ ds, ∀ n ∈ d.marks, n.type ≠ m.type) :
    (ds.map (g.withMark m)).map (Document.without m) = ds := by
  rw [List.map_map]
  exact (List.map_congr_left fun d hd => without_withMark (h d hd)).trans (List.map_id _)

theorem map_withMark_injective {ds es : List Document} (hd : ∀ d ∈ ds, ∀ n ∈ d.marks, n.type ≠ m.type)
    (he : ∀ e ∈ es, ∀ n ∈ e.marks, n.type ≠ m.type) (h : ds.map (g.withMark m) = es.map (g.withMark m)) : ds = es := by
  rw [← map_without_withMark hd, h, map_without_withMark he]

end Grammar

namespace Nest
open Document
variable {g : Grammar}

/-- No mark of all of `ds` goes on in `es`. -/
def Apart (ds es : List Document) : Prop := ∀ m, (∀ d ∈ ds, m ∈ d.marks) → ∀ d ∈ es.head?, m ∉ d.marks

/-- No nest of a row goes on in the next. -/
def Row (g : Grammar) : List Nest → Prop
  | [] => True
  | x :: r => Apart (docs g x) (docsBelow g r) ∧ Row g r

/-- A mark that is rightly opened around a row: no other mark of its type is below, and each mark of the whole row
comes after it. -/
structure Opened (g : Grammar) (m : Mark) (inner : List Nest) : Prop where
  nonempty : inner ≠ []
  known : ∃ i, g.markRank? m.type = some i
  fresh : ∀ d ∈ docsBelow g inner, ∀ n ∈ d.marks, n.type ≠ m.type
  outer : ∀ n, (∀ d ∈ docsBelow g inner, n ∈ d.marks) → g.Outer m n
  row : Row g inner

/-- A row of nests as grouping gives it. -/
structure Steady (g : Grammar) (xs : List Nest) : Prop where
  row : Row g xs
  nests : ∀ x ∈ xs, x.Forall (·.marks = []) (Opened g)

variable {x : Nest}

theorem docs_ne_nil (h : x.Forall (·.marks = []) (Opened g)) : docs g x ≠ [] := by
  induction h with
  | leaf h => simp [docs]
  | @under m inner h hi ih =>
    obtain ⟨y, r, rfl⟩ := List.exists_cons_of_ne_nil h.nonempty
    simp [docs, docsBelow, ih y (List.mem_cons_self ..)]

/-- A nest of one document without marks is that document alone. -/
theorem eq_leaf_of_docs {d : Document} (h : docs g x = [d]) (hd : d.marks = []) : x = .leaf d := by
  cases x with
  | leaf e => rw [List.singleton_inj.1 h]
  | under m inner =>
    rw [docs, List.map_eq_singleton_iff] at h
    obtain ⟨e, -, rfl⟩ := h
    exact absurd (g.self_mem_withMark m e) (by simp [hd])

theorem eq_leaf_of_docsBelow {d : Document} {inner : List Nest} (h : docsBelow g inner = [d]) (hd : d.marks = [])
    (hi : ∀ x ∈ inner, x.Forall (·.marks = []) (Opened g)) : inner = [.leaf d] := by
  cases inner with
  | nil => simp [docsBelow] at h
  | cons y r =>
    rw [docsBelow, List.append_eq_singleton_iff] at h
    rcases h with ⟨hy, -⟩ | ⟨hy, hr⟩
    · exact absurd hy (docs_ne_nil (hi y (List.mem_cons_self ..)))
    · have hr : r = [] := by
        cases r with
        | nil => rfl
        | cons z t =>
          rw [docsBelow] at hr
          exact absurd (List.append_eq_nil_iff.1 hr).1 (docs_ne_nil (hi z (by simp)))
      rw [hr, eq_leaf_of_docs hy hd]

theorem inRank_docs (hg : g.Ranked) (h : x.Forall (·.marks = []) (Opened g)) :
    ∀ d ∈ docs g x, g.InRank d.marks := by
  induction h with
  | leaf h => simpa [docs, h] using Grammar.InRank.nil
  | @under m inner h hi ih =>
    obtain ⟨i, hi⟩ := h.known
    rw [docs]
    simp only [List.mem_map, forall_exists_index, and_imp, forall_apply_eq_imp_iff₂]
    intro d hd
    obtain ⟨y, hy, hd⟩ := mem_docsBelow.1 hd
    exact Grammar.inRank_withMark hg (ih y hy d hd) hi

/-- Of the marks of the first sibling the one that is rightly opened reaches farthest. -/
theorem farthest_of_opened (hg : g.Ranked) {m : Mark} {inner : List Nest} {d : Document} {ds es : List Document}
    (h : Opened g m inner) (hi : ∀ x ∈ inner, x.Forall (·.marks = []) (Opened g)) (hd : docsBelow g inner = d :: ds)
    (hapart : Apart ((d :: ds).map (g.withMark m)) es) :
    farthest (ds.map (g.withMark m) ++ es) (g.withMark m d).marks = some m := by
  obtain ⟨i, hrank⟩ := h.known
  have hin : g.InRank d.marks := by
    have hmem : d ∈ docsBelow g inner := by simp [hd]
    obtain ⟨y, hy, hdy⟩ := mem_docsBelow.1 hmem
    exact inRank_docs hg (hi y hy) d hdy
  refine farthest_eq_some (Grammar.inRank_withMark hg hin hrank) (g.self_mem_withMark m d) fun n hn hne => ?_
  have hnd : n ∈ d.marks := ((Grammar.mem_marks_withMark.1 hn).resolve_left hne).1
  rw [reach_append_of_head Grammar.mem_marks_of_map_withMark (hapart m Grammar.mem_marks_of_map_withMark)]
  by_cases hall : ∀ e ∈ ds.map (g.withMark m), n ∈ e.marks
  · -- a mark over all siblings reaches as far, and is opened inside
    have hon : ∀ e ∈ docsBelow g inner, n ∈ e.marks := by
      rw [hd]
      refine List.forall_mem_cons.2 ⟨hnd, fun e he => ?_⟩
      have := Grammar.mem_marks_withMark.1 (hall _ (List.mem_map_of_mem he))
      exact (this.resolve_left hne).1
    have hend : ∀ e ∈ es.head?, n ∉ e.marks := hapart n (List.forall_mem_cons.2 ⟨hn, hall⟩)
    exact .inr ⟨reach_append_of_head hall hend, h.outer n hon⟩
  · exact .inl (reach_lt_length hall)

/-- What `group_docs` says of one nest in front of a row. -/
theorem group_docs_append (hg : g.Ranked) (h : x.Forall (·.marks = []) (Opened g)) :
    ∀ r, Apart (docs g x) (docsBelow g r) → group (docsBelow g r) = r → group (docs g x ++ docsBelow g r) = x :: r := by
  induction h with
  | leaf h =>
    intro r _ hr
    rw [docs, List.singleton_append, group_leaf h, hr]
  | @under m inner h hi ih =>
    intro r hapart hr
    have hinner : group (docsBelow g inner) = inner := by
      have hrow := h.row
      clear h hapart
      induction inner with
      | nil => simp [docsBelow]
      | cons y s ih' =>
        exact ih y (List.mem_cons_self ..) s hrow.1 (ih' (fun z hz => hi z (List.mem_cons_of_mem _ hz))
          (fun z hz => ih z (List.mem_cons_of_mem _ hz)) hrow.2)
    obtain ⟨d, t, hdt⟩ : ∃ d t, docsBelow g inner = d :: t := by
      obtain ⟨y, s, rfl⟩ := List.exists_cons_of_ne_nil h.nonempty
      refine List.exists_cons_of_ne_nil fun hnil => ?_
      exact docs_ne_nil (hi y (List.mem_cons_self ..)) (List.append_eq_nil_iff.1 hnil).1
    rw [docs, hdt] at hapart
    have hfar := farthest_of_opened hg h hi hdt hapart
    have hopen : (g.withMark m d :: t.map (g.withMark m)).map (without m) = d :: t := by
      rw [← List.map_cons, ← hdt, Grammar.map_without_withMark h.fresh]
    -- every sibling below carries `m`, and the first behind them does not
    have hcarry : ∀ e ∈ t.map (g.withMark m), e.marks.contains m := fun e he =>
      List.contains_iff_mem.2 (Grammar.mem_marks_of_map_withMark e he)
    have hhead : ∀ e ∈ (docsBelow g r).head?, ¬ e.marks.contains m := fun e he hc =>
      hapart m Grammar.mem_marks_of_map_withMark e he (List.contains_iff_mem.1 hc)
    obtain ⟨htake, hdrop⟩ := takeWhile_append_of_head (p := fun e => e.marks.contains m) hcarry hhead
    rw [docs, hdt, List.map_cons, List.cons_append, group_under hfar, htake, hdrop, hopen, hr, ← hdt, hinner]

/-- Grouping finds a steady row again when its marks are closed. -/
theorem group_docs (hg : g.Ranked) {xs : List Nest} (h : Steady g xs) : group (docsBelow g xs) = xs := by
  obtain ⟨hrow, hnests⟩ := h
  induction xs with
  | nil => simp [docsBelow]
  | cons x r ih =>
    exact group_docs_append hg (hnests x (List.mem_cons_self ..)) r hrow.1
      (ih hrow.2 fun y hy => hnests y (List.mem_cons_of_mem _ hy))

/-- Grouping gives steady rows. -/
theorem steady_group (ds : List Document) (h : ∀ d ∈ ds, g.InRank d.marks) : Steady g (group ds) := by
  induction ds using group_induct with
  | nil => exact ⟨by simp [Row], by simp⟩
  | leaf d r hd ih =>
    have hr := ih fun e he => h e (List.mem_cons_of_mem _ he)
    rw [group_leaf hd]
    refine ⟨⟨fun m hm => ?_, hr.row⟩, List.forall_mem_cons.2 ⟨.leaf hd, hr.nests⟩⟩
    have := hm d (by simp [docs])
    simp [hd] at this
  | under d r m hm ih₁ ih₂ =>
    obtain ⟨hrun, hdrop⟩ := forall_mem_run m h
    have hcarry := mem_marks_of_takeWhile (r := r) (farthest_mem hm)
    have hinner := ih₁ (forall_mem_without hrun)
    have hrest := ih₂ hdrop
    have hspec := farthest_spec (h d (List.mem_cons_self ..)) hm
    have hreach : reach m r = (r.takeWhile (·.marks.contains m)).length := rfl
    rw [group_under hm]
    refine ⟨⟨?_, hrest.row⟩, List.forall_mem_cons.2 ⟨.under ?_ hinner.nests, hrest.nests⟩⟩
    · -- a mark that went on behind the run would have reached farther
      rw [docs, docs_group _ (forall_mem_without hrun), docs_group _ hdrop,
        Grammar.map_withMark_without hrun hcarry]
      intro n hn e he hne
      by_cases hnm : n = m
      · subst hnm
        have := List.head?_dropWhile_not (fun e : Document => e.marks.contains n) r
        rw [Option.mem_def.1 he] at this
        simp [hne] at this
      · have hlt := length_lt_reach (fun x hx => hn x (List.mem_cons_of_mem _ hx)) he hne
        rw [List.takeWhile_append_dropWhile, ← hreach] at hlt
        rcases hspec n (hn d (List.mem_cons_self ..)) hnm with hs | ⟨hs, -⟩ <;> omega
    · refine ⟨fun hnil => ?_, (h d (List.mem_cons_self ..)).known m (farthest_mem hm), ?_, ?_, hinner.row⟩
      · have := docs_group _ (forall_mem_without (m := m) hrun)
        rw [hnil] at this
        simp [docsBelow] at this
      · rw [docs_group _ (forall_mem_without hrun)]
        intro e he n hn htype
        obtain ⟨e', he', rfl⟩ := List.mem_map.1 he
        obtain ⟨hn, hne⟩ := List.mem_filter.1 hn
        exact absurd ((hrun e' he').eq_of_type hn (hcarry e' he') htype) (by simpa using hne)
      · rw [docs_group _ (forall_mem_without hrun)]
        intro n hn
        have hall : ∀ e ∈ d :: r.takeWhile (·.marks.contains m), n ∈ e.marks ∧ n ≠ m := fun e he => by
          simpa [without] using hn _ (List.mem_map_of_mem he)
        obtain ⟨hnd, hnm⟩ := hall d (List.mem_cons_self ..)
        have hle := reach_le_reach fun e he => (hall e (List.mem_cons_of_mem _ he)).1
        rcases hspec n hnd hnm with hs | ⟨-, hs⟩
        · omega
        · exact hs

end Nest
end RichDoc
