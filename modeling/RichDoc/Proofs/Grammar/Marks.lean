import RichDoc.Grammar.Make
import RichDoc.Proofs.Document.Nodes

/-!
# Marks in order of rank

`Grammar.Outer g m n`: of two marks `m` is the outer, the one of lower rank. The marks of a made node are in this
order (`Grammar.InRank`), so the list is fixed by its members. `Grammar.withMark` is `Grammar.addMark` where it
gives something; a mark taken off and put on again leaves the node as it was (`InRank.insertMark_filter`).
-/

namespace RichDoc
namespace Grammar
variable {g : Grammar} {m n : Mark} {ms : List Mark} {i : Nat}

/-- No two mark types have one rank. -/
def Ranked (g : Grammar) : Prop :=
  ∀ s t i, g.markRank? s = some i → g.markRank? t = some i → s = t

theorem pairwise_markTypes (specs : List (String × MarkSpec)) (k : Nat) :
    (markTypes k specs).Pairwise (·.rank < ·.rank) ∧ ∀ t ∈ markTypes k specs, k ≤ t.rank := by
  induction specs generalizing k with
  | nil => simp [markTypes]
  | cons s r ih =>
    obtain ⟨name, spec⟩ := s
    obtain ⟨hp, hk⟩ := ih (k + 1)
    refine ⟨List.pairwise_cons.2 ⟨fun t ht => hk t ht, hp⟩, fun t ht => ?_⟩
    rcases List.mem_cons.1 ht with rfl | ht
    · exact Nat.le_refl k
    · exact Nat.le_of_succ_le (hk t ht)

theorem markType?_eq_some {t : MarkType} {s : String} (h : g.markType? s = some t) :
    t ∈ g.marks ∧ t.name = s :=
  ⟨by simpa using List.mem_of_find?_eq_some h, by simpa using List.find?_some h⟩

theorem ranked_of_pairwise (h : g.marks.Pairwise (·.rank < ·.rank)) : g.Ranked := by
  have heq : ∀ a ∈ g.marks, ∀ b ∈ g.marks, a.rank = b.rank → a = b := by
    intro a ha b hb
    refine List.Pairwise.forall_of_forall_of_flip (R := fun a b => a.rank = b.rank → a = b)
      (fun _ _ _ => rfl) ?_ ?_ ha hb
    · exact h.imp fun hlt he => absurd he (Nat.ne_of_lt hlt)
    · exact h.imp fun hlt he => absurd he.symm (Nat.ne_of_lt hlt)
  intro s t i hs ht
  obtain ⟨a, ha, rfl⟩ := Option.map_eq_some_iff.1 hs
  obtain ⟨b, hb, hab⟩ := Option.map_eq_some_iff.1 ht
  obtain ⟨ham, rfl⟩ := markType?_eq_some ha
  obtain ⟨hbm, rfl⟩ := markType?_eq_some hb
  rw [heq a ham b hbm hab.symm]

theorem ranked_build {nodes : List (String × NodeSpec)} {marks : List (String × MarkSpec)} {top : Option String}
    (h : build nodes marks top = .ok g) : g.Ranked := by
  unfold build at h
  cases hn : nodeTypes (namesOf nodes) nodes with
  | error e => simp [hn, bind, Except.bind] at h
  | ok ts =>
    simp only [hn, bind, Except.bind, pure, Except.pure, Except.ok.injEq] at h
    subst h
    exact ranked_of_pairwise (pairwise_markTypes marks 0).1

/-- Of two marks `m` is the outer. -/
def Outer (g : Grammar) (m n : Mark) : Prop :=
  ∃ i j, g.markRank? m.type = some i ∧ g.markRank? n.type = some j ∧ i < j

instance (m n : Mark) : Decidable (g.Outer m n) :=
  decidable_of_iff ((g.markRank? m.type).any fun i => (g.markRank? n.type).any (i < ·)) <| by
    cases hi : g.markRank? m.type <;> cases hj : g.markRank? n.type <;> simp [Outer, hi, hj]

theorem Outer.asymm (h : g.Outer m n) : ¬ g.Outer n m := by
  obtain ⟨i, j, hi, hj, hlt⟩ := h
  rintro ⟨j', i', hj', hi', hlt'⟩
  rw [hi] at hi'
  rw [hj] at hj'
  cases hi'
  cases hj'
  omega

theorem Outer.type_ne (h : g.Outer m n) : m.type ≠ n.type := by
  obtain ⟨i, j, hi, hj, hlt⟩ := h
  intro he
  rw [he, hj] at hi
  cases hi
  exact Nat.lt_irrefl _ hlt

theorem Outer.trans {k : Mark} (h : g.Outer m n) (h' : g.Outer n k) : g.Outer m k := by
  obtain ⟨i, j, hi, hj, hlt⟩ := h
  obtain ⟨j', l, hj', hl, hlt'⟩ := h'
  rw [hj] at hj'
  cases hj'
  exact ⟨i, l, hi, hl, Nat.lt_trans hlt hlt'⟩

/-- Marks of known types, the outer ones first. -/
structure InRank (g : Grammar) (ms : List Mark) : Prop where
  known : ∀ m ∈ ms, ∃ i, g.markRank? m.type = some i
  sorted : ms.Pairwise g.Outer

instance (ms : List Mark) : Decidable (g.InRank ms) :=
  decidable_of_iff ((∀ m ∈ ms, (g.markRank? m.type).isSome) ∧ ms.Pairwise g.Outer)
    ⟨fun ⟨hk, hs⟩ => ⟨fun m hm => Option.isSome_iff_exists.1 (hk m hm), hs⟩,
      fun ⟨hk, hs⟩ => ⟨fun m hm => Option.isSome_iff_exists.2 (hk m hm), hs⟩⟩

theorem mem_insertMark : n ∈ g.insertMark i m ms ↔ n = m ∨ n ∈ ms := by
  induction ms with
  | nil => simp [insertMark]
  | cons a r ih =>
    unfold insertMark
    split
    · simp
    · simp only [List.mem_cons, ih]
      rw [← or_assoc, ← or_assoc, or_comm (a := n = a)]

theorem length_insertMark : (g.insertMark i m ms).length = ms.length + 1 := by
  induction ms with
  | nil => rfl
  | cons a r ih =>
    unfold insertMark
    split
    · rfl
    · rw [List.length_cons, ih, List.length_cons]

namespace InRank

theorem nil : g.InRank [] := ⟨by simp, .nil⟩

theorem tail {a : Mark} (h : g.InRank (a :: ms)) : g.InRank ms :=
  ⟨fun m hm => h.known m (List.mem_cons_of_mem _ hm), (List.pairwise_cons.1 h.sorted).2⟩

theorem filter (h : g.InRank ms) (p : Mark → Bool) : g.InRank (ms.filter p) :=
  ⟨fun m hm => h.known m (List.mem_filter.1 hm).1, h.sorted.filter p⟩

theorem eq_of_type (h : g.InRank ms) (hm : m ∈ ms) (hn : n ∈ ms) (he : m.type = n.type) : m = n := by
  refine List.Pairwise.forall_of_forall_of_flip (R := fun a b => a.type = b.type → a = b)
    (fun _ _ _ => rfl) ?_ ?_ hm hn he
  · exact h.sorted.imp fun ho he => absurd he ho.type_ne
  · exact h.sorted.imp fun ho he => absurd he.symm ho.type_ne

theorem filter_ne (h : g.InRank ms) (hm : m ∈ ms) :
    ms.filter (fun n => n.type != m.type) = ms.filter fun n => n ≠ m := by
  refine List.filter_congr fun n hn => ?_
  by_cases he : n.type = m.type
  · have := h.eq_of_type hn hm he
    subst this
    simp
  · have hne : n ≠ m := fun hnm => he (hnm ▸ rfl)
    simp [he, hne]

theorem insertMark (hg : g.Ranked) (h : g.InRank ms) (hi : g.markRank? m.type = some i)
    (hnew : ∀ n ∈ ms, n.type ≠ m.type) : g.InRank (g.insertMark i m ms) := by
  refine ⟨fun n hn => ?_, ?_⟩
  · rcases mem_insertMark.1 hn with rfl | hn
    · exact ⟨i, hi⟩
    · exact h.known n hn
  induction ms with
  | nil => simp [Grammar.insertMark]
  | cons a r ih =>
    obtain ⟨j, hj⟩ := h.known a (List.mem_cons_self ..)
    obtain ⟨har, hr⟩ := List.pairwise_cons.1 h.sorted
    simp only [Grammar.insertMark, hj, Option.any_some, decide_eq_true_eq]
    split
    · next hlt =>
      have hma : g.Outer m a := ⟨i, j, hi, hj, hlt⟩
      refine List.pairwise_cons.2 ⟨fun x hx => ?_, h.sorted⟩
      rcases List.mem_cons.1 hx with rfl | hx
      · exact hma
      · exact hma.trans (har x hx)
    · next hge =>
      have ham : g.Outer a m := by
        have hne : i ≠ j := fun he => hnew a (List.mem_cons_self ..) (hg _ _ _ hj (he ▸ hi))
        exact ⟨j, i, hj, hi, by omega⟩
      refine List.pairwise_cons.2 ⟨fun x hx => ?_, ih h.tail fun n hn => hnew n (List.mem_cons_of_mem _ hn)⟩
      rcases mem_insertMark.1 hx with rfl | hx
      · exact ham
      · exact har x hx

theorem insertMark_filter (h : g.InRank ms) (hm : m ∈ ms) (hi : g.markRank? m.type = some i) :
    g.insertMark i m (ms.filter fun n => n ≠ m) = ms := by
  induction ms with
  | nil => simp at hm
  | cons a r ih =>
    obtain ⟨har, hr⟩ := List.pairwise_cons.1 h.sorted
    by_cases ha : a = m
    · -- what is left are marks of higher rank than `m`
      subst ha
      have hrest : r.filter (fun n => n ≠ a) = r := by
        refine List.filter_eq_self.2 fun n hn => ?_
        have hne : n ≠ a := fun he => (har n hn).type_ne (he ▸ rfl)
        simpa using hne
      have hall : (a :: r).filter (fun n => n ≠ a) = r := by simpa using hrest
      rw [hall]
      cases r with
      | nil => rfl
      | cons b s =>
        obtain ⟨i', j, hi', hj, hlt⟩ := har b (List.mem_cons_self ..)
        rw [hi] at hi'
        cases hi'
        simp [Grammar.insertMark, hj, hlt]
    · have hmr : m ∈ r := (List.mem_cons.1 hm).resolve_left fun he => ha he.symm
      obtain ⟨j, i', hj, hi', hlt⟩ := har m hmr
      rw [hi] at hi'
      cases hi'
      have hkeep : (a :: r).filter (fun n => n ≠ m) = a :: r.filter fun n => n ≠ m := by simp [ha]
      rw [hkeep]
      simp only [Grammar.insertMark, hj, Option.any_some, decide_eq_true_eq]
      rw [if_neg (by omega), ih h.tail hmr]

end InRank

theorem insertMark_of_outer (h : ∀ n ∈ ms, g.Outer n m) (hi : g.markRank? m.type = some i) :
    g.insertMark i m ms = ms ++ [m] := by
  induction ms with
  | nil => rfl
  | cons a r ih =>
    obtain ⟨j, i', hj, hi', hlt⟩ := h a (List.mem_cons_self ..)
    rw [hi] at hi'
    cases hi'
    simp only [insertMark, hj, Option.any_some, decide_eq_true_eq]
    rw [if_neg (by omega), ih fun n hn => h n (List.mem_cons_of_mem _ hn), List.cons_append]

/-- The node with the mark, for a mark of known type. -/
def withMark (g : Grammar) (m : Mark) (d : Document) : Document :=
  { d with marks := g.insertMark ((g.markRank? m.type).getD 0) m (d.marks.filter (·.type != m.type)) }

variable {d : Document}

theorem addMark_eq (hi : g.markRank? m.type = some i) : g.addMark d m = .ok (g.withMark m d) := by
  simp [addMark, withMark, hi]

@[simp] theorem type_withMark : (g.withMark m d).type = d.type := rfl
@[simp] theorem attrs_withMark : (g.withMark m d).attrs = d.attrs := rfl
@[simp] theorem content_withMark : (g.withMark m d).content = d.content := rfl
@[simp] theorem text_withMark : (g.withMark m d).text = d.text := rfl
@[simp] theorem bare_withMark : (g.withMark m d).bare = d.bare := rfl

theorem mem_marks_withMark : n ∈ (g.withMark m d).marks ↔ n = m ∨ n ∈ d.marks ∧ n.type ≠ m.type := by
  simp [withMark, mem_insertMark]

theorem self_mem_withMark (g : Grammar) (m : Mark) (d : Document) : m ∈ (g.withMark m d).marks :=
  mem_marks_withMark.2 (.inl rfl)

theorem mem_marks_of_map_withMark {ds : List Document} : ∀ e ∈ ds.map (g.withMark m), m ∈ e.marks :=
  List.forall_mem_map.2 fun d _ => self_mem_withMark g m d

theorem inRank_withMark (hg : g.Ranked) (h : g.InRank d.marks) (hi : g.markRank? m.type = some i) :
    g.InRank (g.withMark m d).marks := by
  simp only [withMark, hi, Option.getD_some]
  exact (h.filter _).insertMark hg hi fun n hn => by simpa using (List.mem_filter.1 hn).2

/-- Marks in order of rank, put on one after the other, stand in this order. -/
theorem foldl_withMark (d : Document) (h : g.InRank (d.marks ++ ms)) :
    ms.foldl (fun d m => g.withMark m d) d = { d with marks := d.marks ++ ms } := by
  induction ms generalizing d with
  | nil => simp
  | cons m r ih =>
    obtain ⟨i, hi⟩ := h.known m (by simp)
    have houter : ∀ n ∈ d.marks, g.Outer n m := fun n hn =>
      (List.pairwise_append.1 h.sorted).2.2 n hn m (List.mem_cons_self ..)
    have hkeep : d.marks.filter (fun n => n.type != m.type) = d.marks :=
      List.filter_eq_self.2 fun n hn => by simpa using (houter n hn).type_ne
    have hstep : g.withMark m d = { d with marks := d.marks ++ [m] } := by
      simp only [withMark, hi, Option.getD_some, hkeep, insertMark_of_outer houter hi]
    rw [List.foldl_cons, hstep, ih _ (by simpa using h)]
    simp

end Grammar
end RichDoc
