import RichDoc.Conversion.Up
import RichDoc.Proofs.Grammar.Marks

/-!
# Siblings under their marks

A `Nest` is a document without marks of its own, or a row of nests under one mark. `Document.group` opens the
marks of a row of siblings, each time the mark that reaches farthest; `Nest.docs` closes the marks of a nest.
Closing undoes grouping (`docs_group`).
-/

namespace RichDoc

/-- A document without marks of its own, or siblings under a mark. -/
inductive Nest where
  | leaf (d : Document)
  | under (m : Mark) (inner : List Nest)

namespace Document

/-- The document without a mark. -/
def without (m : Mark) (d : Document) : Document := { d with marks := d.marks.filter fun n => n ≠ m }

variable {d : Document} {ds : List Document} {m n : Mark} {ms : List Mark}

theorem weights_map_without_le (m : Mark) (ds : List Document) : weights (ds.map (without m)) ≤ weights ds := by
  induction ds with
  | nil => simp
  | cons d r ih =>
    have := List.length_filter_le (fun n => n ≠ m) d.marks
    simp only [List.map_cons, weights, weight_eq, without] at ih ⊢
    omega

theorem weights_without_lt (h : m ∈ d.marks) (r : List Document) :
    weights ((d :: r).map (without m)) < weights (d :: r) := by
  have hr := weights_map_without_le m r
  have hd : (d.marks.filter fun n => n ≠ m).length < d.marks.length :=
    List.length_filter_lt_length_iff_exists.2 ⟨m, h, by simp⟩
  simp only [List.map_cons, weights, weight_eq, without] at hr ⊢
  omega

theorem weights_append (ds es : List Document) : weights (ds ++ es) = weights ds + weights es := by
  induction ds with
  | nil => simp [weights]
  | cons d r ih => simp [weights, ih, Nat.add_assoc]

theorem weights_takeWhile_add_dropWhile (p : Document → Bool) (ds : List Document) :
    weights (ds.takeWhile p) + weights (ds.dropWhile p) = weights ds := by
  rw [← weights_append, List.takeWhile_append_dropWhile]

theorem weight_pos (d : Document) : 0 < d.weight := by
  rw [weight_eq]
  omega

/-- Siblings under their marks: of the marks of the first document the one that reaches farthest is opened. -/
def group (ds : List Document) : List Nest :=
  match ds with
  | [] => []
  | d :: r =>
    match _hm : farthest r d.marks with
    | none => .leaf d :: group r
    | some m =>
      .under m (group ((d :: r.takeWhile (·.marks.contains m)).map (without m))) ::
        group (r.dropWhile (·.marks.contains m))
termination_by weights ds
decreasing_by
  · have := weight_pos d
    simp only [weights]
    omega
  · have h₁ := weights_without_lt (farthest_mem _hm) (r.takeWhile (·.marks.contains m))
    have h₂ := weights_takeWhile_add_dropWhile (·.marks.contains m) r
    simp only [weights] at h₁ ⊢
    omega
  · have h₁ := weight_pos d
    have h₂ := weights_takeWhile_add_dropWhile (·.marks.contains m) r
    simp only [weights]
    omega

theorem farthest_eq_none : farthest ds ms = none ↔ ms = [] := by
  cases ms with
  | nil => simp [farthest]
  | cons m r =>
    simp only [farthest]
    split <;> simp

@[simp] theorem group_nil : group [] = [] := by
  rw [group]

theorem group_leaf (h : d.marks = []) : group (d :: ds) = .leaf d :: group ds := by
  rw [group]
  split
  · rfl
  · next m hm => simp [h, farthest] at hm

theorem group_under (h : farthest ds d.marks = some m) : group (d :: ds) =
    .under m (group ((d :: ds.takeWhile (·.marks.contains m)).map (without m))) ::
      group (ds.dropWhile (·.marks.contains m)) := by
  rw [group]
  split
  · next hm => simp [h] at hm
  · next m' hm =>
    rw [h] at hm
    cases hm
    rfl

/-- Induction along `group`. -/
@[elab_as_elim]
theorem group_induct {P : List Document → Prop} (nil : P [])
    (leaf : ∀ d r, d.marks = [] → P r → P (d :: r))
    (under : ∀ d r m, farthest r d.marks = some m →
      P ((d :: r.takeWhile (·.marks.contains m)).map (without m)) →
      P (r.dropWhile (·.marks.contains m)) → P (d :: r)) (ds : List Document) : P ds := by
  induction ds using group.induct with
  | case1 => exact nil
  | case2 d r hm ih => exact leaf d r (farthest_eq_none.1 hm) ih
  | case3 d r m hm ih₁ ih₂ => exact under d r m hm ih₁ ih₂

theorem mem_marks_of_takeWhile {r : List Document} (hd : m ∈ d.marks) :
    ∀ e ∈ d :: r.takeWhile (·.marks.contains m), m ∈ e.marks := by
  intro e he
  rcases List.mem_cons.1 he with rfl | he
  · exact hd
  · have := List.all_takeWhile (l := r) (p := fun e : Document => e.marks.contains m)
    simpa using List.all_eq_true.1 this e he

theorem forall_mem_run {P : Document → Prop} {r : List Document} (m : Mark) (h : ∀ e ∈ d :: r, P e) :
    (∀ e ∈ d :: r.takeWhile (·.marks.contains m), P e) ∧ ∀ e ∈ r.dropWhile (·.marks.contains m), P e :=
  ⟨fun e he => h e (((List.takeWhile_sublist _).cons_cons d).mem he),
    fun e he => h e (List.mem_cons_of_mem _ ((List.dropWhile_sublist _).mem he))⟩

theorem forall_mem_without {g : Grammar} {ds : List Document} (h : ∀ d ∈ ds, g.InRank d.marks) :
    ∀ d ∈ ds.map (without m), g.InRank d.marks := by
  intro d hd
  obtain ⟨e, he, rfl⟩ := List.mem_map.1 hd
  exact (h e he).filter _

/-- What is opened reaches farther than every other mark, or as far and is the outer. -/
theorem farthest_spec {g : Grammar} (h : g.InRank ms) (hm : farthest ds ms = some m) :
    ∀ n ∈ ms, n ≠ m → reach n ds < reach m ds ∨ reach n ds = reach m ds ∧ g.Outer m n := by
  induction ms generalizing m with
  | nil => simp
  | cons a r ih =>
    obtain ⟨har, -⟩ := List.pairwise_cons.1 h.sorted
    intro n hn hne
    rw [farthest] at hm
    split at hm
    · next hr =>
      rw [farthest_eq_none.1 hr, List.mem_singleton] at hn
      cases hm
      exact absurd hn hne
    · next k hk =>
      have hbest := ih h.tail hk
      split at hm
      · next hlt =>
        cases hm
        rcases List.mem_cons.1 hn with rfl | hn
        · exact .inl hlt
        · exact hbest n hn hne
      · next hle =>
        -- `a` reaches as far as `k` at least and stands before it
        cases hm
        have hn := (List.mem_cons.1 hn).resolve_left hne
        have hreach : reach n ds ≤ reach a ds := by
          by_cases hnk : n = k
          · rw [hnk]
            omega
          · rcases hbest n hn hnk with hlt | ⟨he, -⟩ <;> omega
        rcases Nat.lt_or_eq_of_le hreach with hlt | he
        · exact .inl hlt
        · exact .inr ⟨he, har n hn⟩

end Document

namespace Nest
open Document
variable {g : Grammar}

mutual
/-- The siblings of a nest with its marks on them. -/
def docs (g : Grammar) : Nest → List Document
  | leaf d => [d]
  | under m inner => (docsBelow g inner).map (g.withMark m)

/-- The siblings of a row of nests. -/
def docsBelow (g : Grammar) : List Nest → List Document
  | [] => []
  | x :: r => docs g x ++ docsBelow g r
end

theorem docs_under (m : Mark) (inner : List Nest) :
    docs g (under m inner) = (docsBelow g inner).map (g.withMark m) := by rw [docs]

end Nest

namespace Grammar
variable {g : Grammar} {d : Document} {m : Mark}

/-- A mark taken off and put on again leaves the document as it was. -/
theorem withMark_without (h : g.InRank d.marks) (hm : m ∈ d.marks) : g.withMark m (d.without m) = d := by
  obtain ⟨i, hi⟩ := h.known m hm
  have hkeep : (d.marks.filter fun n => n ≠ m).filter (fun n => n.type != m.type) =
      d.marks.filter fun n => n ≠ m := by
    rw [← h.filter_ne hm, List.filter_filter]
    simp
  simp only [withMark, Document.without, hi, Option.getD_some, hkeep, h.insertMark_filter hm hi,
    Document.eta]

theorem map_withMark_without {ds : List Document} (h : ∀ d ∈ ds, g.InRank d.marks) (hm : ∀ d ∈ ds, m ∈ d.marks) :
    (ds.map (Document.without m)).map (g.withMark m) = ds := by
  rw [List.map_map]
  refine (List.map_congr_left fun d hd => ?_).trans (List.map_id _)
  exact withMark_without (h d hd) (hm d hd)

end Grammar

namespace Nest
open Document
variable {g : Grammar} {P : Document → Prop} {Q : Mark → List Nest → Prop}

theorem docsBelow_eq (xs : List Nest) : docsBelow g xs = xs.flatMap (docs g) := by
  induction xs with
  | nil => rfl
  | cons x r ih => simp [docsBelow, ih]

theorem mem_docsBelow {d : Document} {xs : List Nest} : d ∈ docsBelow g xs ↔ ∃ x ∈ xs, d ∈ docs g x := by
  rw [docsBelow_eq, List.mem_flatMap]

/-- Every leaf is `P` and every mark with what stands under it is `Q`. -/
inductive Forall (P : Document → Prop) (Q : Mark → List Nest → Prop) : Nest → Prop where
  | leaf {d : Document} (h : P d) : Forall P Q (leaf d)
  | under {m : Mark} {inner : List Nest} (h : Q m inner) (hi : ∀ x ∈ inner, Forall P Q x) :
    Forall P Q (under m inner)

theorem Forall.imp {P' : Document → Prop} {Q' : Mark → List Nest → Prop} (hP : ∀ d, P d → P' d)
    (hQ : ∀ m inner, Q m inner → Q' m inner) {x : Nest} (h : x.Forall P Q) : x.Forall P' Q' := by
  induction h with
  | leaf h => exact .leaf (hP _ h)
  | under h _ ih => exact .under (hQ _ _ h) ih

theorem Forall.and {P' : Document → Prop} {Q' : Mark → List Nest → Prop} {x : Nest} (h : x.Forall P Q)
    (h' : x.Forall P' Q') : x.Forall (fun d => P d ∧ P' d) fun m inner => Q m inner ∧ Q' m inner := by
  induction h with
  | leaf h =>
    cases h' with
    | leaf h' => exact .leaf ⟨h, h'⟩
  | under h _ ih =>
    cases h' with
    | under h' hi' => exact .under ⟨h, h'⟩ fun x hx => ih x hx (hi' x hx)

/-- Closing the marks of a grouped row gives back the row. -/
theorem docs_group (ds : List Document) (h : ∀ d ∈ ds, g.InRank d.marks) : docsBelow g (group ds) = ds := by
  induction ds using group_induct with
  | nil => simp [docsBelow]
  | leaf d r hd ih =>
    rw [group_leaf hd, docsBelow, docs, ih fun e he => h e (List.mem_cons_of_mem _ he)]
    rfl
  | under d r m hm ih₁ ih₂ =>
    obtain ⟨hrun, hdrop⟩ := forall_mem_run m h
    have hcarry := mem_marks_of_takeWhile (r := r) (farthest_mem hm)
    rw [group_under hm, docsBelow, docs, ih₁ (forall_mem_without hrun), ih₂ hdrop,
      Grammar.map_withMark_without hrun hcarry, List.cons_append, List.takeWhile_append_dropWhile]

/-- What holds of siblings, their own marks aside, and of their marks holds all over the nests of the siblings. -/
theorem forall_group {R : Mark → Document → Prop} (ds : List Document) (h : ∀ d ∈ ds, g.InRank d.marks)
    (hP : ∀ d ∈ ds, P d.bare) (hR : ∀ d ∈ ds, ∀ m ∈ d.marks, R m d.bare) :
    ∀ x ∈ group ds, x.Forall P fun m inner =>
      docsBelow g inner ≠ [] ∧ ∀ d ∈ docsBelow g inner, R m d.bare := by
  induction ds using group_induct with
  | nil => simp
  | leaf d r hd ih =>
    rw [group_leaf hd]
    refine List.forall_mem_cons.2 ⟨.leaf (bare_eq hd ▸ hP d (List.mem_cons_self ..)), ?_⟩
    exact ih (fun e he => h e (List.mem_cons_of_mem _ he)) (fun e he => hP e (List.mem_cons_of_mem _ he))
      fun e he => hR e (List.mem_cons_of_mem _ he)
  | under d r m hm ih₁ ih₂ =>
    obtain ⟨hrun, hdrop⟩ := forall_mem_run m h
    obtain ⟨hPrun, hPdrop⟩ := forall_mem_run m hP
    obtain ⟨hRrun, hRdrop⟩ := forall_mem_run m hR
    have hcarry := mem_marks_of_takeWhile (r := r) (farthest_mem hm)
    rw [group_under hm]
    refine List.forall_mem_cons.2 ⟨.under ?_ (ih₁ (forall_mem_without hrun) ?_ ?_), ih₂ hdrop hPdrop hRdrop⟩
    · rw [docs_group _ (forall_mem_without hrun)]
      refine ⟨by simp, fun e he => ?_⟩
      obtain ⟨e', he', rfl⟩ := List.mem_map.1 he
      exact hRrun e' he' m (hcarry e' he')
    · intro e he
      obtain ⟨e', he', rfl⟩ := List.mem_map.1 he
      exact hPrun e' he'
    · intro e he n hn
      obtain ⟨e', he', rfl⟩ := List.mem_map.1 he
      exact hRrun e' he' n (List.mem_filter.1 hn).1

end Nest
end RichDoc
