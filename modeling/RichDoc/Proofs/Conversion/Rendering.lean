import Mathlib.Data.List.Forall2
import RichDoc.Proofs.Conversion.Grouping

/-!
# Converting siblings by way of their nests

`Composition.upList` groups siblings and converts them in one pass. `upList_eq` takes the two apart: what it
gives is the conversion of the nests (`Composition.renderRow`) that `Document.group` makes of the siblings.
-/

namespace RichDoc

namespace Document
variable {applied ms : List Mark} {m : Mark} {d : Document} {ds es : List Document}

/-- The document with those of its marks that are not open. -/
def unopened (applied : List Mark) (d : Document) : Document := { d with marks := d.pending applied }

@[simp] theorem pending_nil (d : Document) : d.pending [] = d.marks := List.filter_eq_self.2 (by simp)

theorem unopened_nil (d : Document) : d.unopened [] = d := by
  rw [unopened, pending_nil, eta]

theorem without_unopened (applied : List Mark) (m : Mark) (d : Document) :
    (d.unopened applied).without m = d.unopened (m :: applied) := by
  simp only [without, unopened, pending_cons]

theorem not_mem_of_mem_pending (h : m ∈ d.pending applied) : m ∉ applied := by
  simpa using (List.mem_filter.1 h).2

theorem contains_marks_unopened (h : m ∉ applied) (d : Document) :
    (d.unopened applied).marks.contains m = d.marks.contains m := by
  rw [Bool.eq_iff_iff]
  simp [unopened, pending, h]

theorem takeWhile_map_unopened (h : m ∉ applied) (ds : List Document) :
    (ds.map (unopened applied)).takeWhile (·.marks.contains m) =
      (ds.takeWhile (·.marks.contains m)).map (unopened applied) := by
  rw [List.takeWhile_map]
  congr 2
  exact funext fun d => contains_marks_unopened h d

theorem dropWhile_map_unopened (h : m ∉ applied) (ds : List Document) :
    (ds.map (unopened applied)).dropWhile (·.marks.contains m) =
      (ds.dropWhile (·.marks.contains m)).map (unopened applied) := by
  rw [List.dropWhile_map]
  congr 2
  exact funext fun d => contains_marks_unopened h d

theorem farthest_congr (h : ∀ m ∈ ms, reach m ds = reach m es) : farthest ds ms = farthest es ms := by
  induction ms with
  | nil => rfl
  | cons m r ih =>
    have hr := ih fun n hn => h n (List.mem_cons_of_mem _ hn)
    simp only [farthest, hr, h m (List.mem_cons_self ..)]
    cases hk : farthest es r with
    | none => rfl
    | some n => simp only [h n (List.mem_cons_of_mem _ (farthest_mem hk))]

theorem farthest_map_unopened (ds : List Document) (d : Document) :
    farthest (ds.map (unopened applied)) (d.unopened applied).marks = farthest ds (d.pending applied) := by
  refine farthest_congr fun m hm => ?_
  rw [reach, takeWhile_map_unopened (not_mem_of_mem_pending hm), List.length_map, reach]

end Document

namespace Composition
open Document
variable (c : Composition)

mutual
/-- Converts a nest. -/
def render : Nest → Conversion (List Node)
  | .leaf d => c.up d
  | .under m inner => do c.upMark m (← renderRow inner)

/-- Converts a row of nests. -/
def renderRow : List Nest → Conversion (List Node)
  | [] => pure []
  | x :: r => do
    let ns ← render x
    return ns ++ (← renderRow r)
end

/-- No converter looks at the marks of the node itself. -/
def MarkBlind : Prop := ∀ (d : Document) (ns : List Node), c.upNode d.bare ns = c.upNode d ns

variable {c} {applied : List Mark} {m : Mark} {d : Document} {ds : List Document}

theorem upList_own (h : farthest ds (d.pending applied) = none) :
    c.upList applied (d :: ds) = do return (← c.up d) ++ (← c.upList applied ds) := by
  rw [upList]
  split
  · simp only [up, bind_assoc]
  · next m hm => simp [h] at hm

theorem upList_run (h : farthest ds (d.pending applied) = some m) :
    c.upList applied (d :: ds) = do
      let ns ← c.upMark m (← c.upList (m :: applied) (d :: ds.takeWhile (·.marks.contains m)))
      return ns ++ (← c.upList applied (ds.dropWhile (·.marks.contains m))) := by
  rw [upList]
  split
  · next hm => simp [h] at hm
  · next n hn =>
    cases h.symm.trans hn
    rfl

theorem up_bare (hc : c.MarkBlind) (d : Document) : c.up d.bare = c.up d := by
  simp only [up, hc d, content_bare]

theorem renderRow_eq {S : Nest → Node → Prop} {xs : List Nest} (h : ∀ x ∈ xs, ∃ n, c.render x = pure [n] ∧ S x n) :
    ∃ ns, c.renderRow xs = pure ns ∧ List.Forall₂ S xs ns := by
  induction xs with
  | nil => exact ⟨[], by simp [renderRow], .nil⟩
  | cons x r ih =>
    obtain ⟨n, hn, hS⟩ := h x (List.mem_cons_self ..)
    obtain ⟨ns, hns, hr⟩ := ih fun y hy => h y (List.mem_cons_of_mem _ hy)
    exact ⟨n :: ns, by simp [renderRow, hn, hns], .cons hS hr⟩

/-- Siblings are converted nest by nest. -/
theorem upList_eq (hc : c.MarkBlind) (applied : List Mark) (ds : List Document) :
    c.upList applied ds = c.renderRow (group (ds.map (unopened applied))) := by
  induction applied, ds using upList.induct with
  | case1 applied =>
    rw [upList]
    simp [renderRow]
  | case2 applied d r hm ih₁ ih₂ =>
    have hd : d.unopened applied = d.bare := by rw [unopened, farthest_eq_none.1 hm, bare]
    rw [upList_own hm, List.map_cons, group_leaf (by rw [hd]; rfl), renderRow, render, hd, up_bare hc, ih₂]
  | case3 applied d r m hm ih₁ ih₂ =>
    have hnew : m ∉ applied := not_mem_of_mem_pending (farthest_mem hm)
    have hfar : farthest (r.map (unopened applied)) (d.unopened applied).marks = some m := by
      rw [farthest_map_unopened, hm]
    have hopen : (d.unopened applied :: (r.takeWhile (·.marks.contains m)).map (unopened applied)).map
        (without m) = (d :: r.takeWhile (·.marks.contains m)).map (unopened (m :: applied)) := by
      rw [← List.map_cons, List.map_map]
      exact List.map_congr_left fun e _ => without_unopened applied m e
    rw [upList_run hm, List.map_cons, group_under hfar, takeWhile_map_unopened hnew, dropWhile_map_unopened hnew,
      hopen, renderRow, render, ih₁, ih₂, bind_assoc]

/-- A document is converted with its content nest by nest. -/
theorem up_eq (hc : c.MarkBlind) (d : Document) :
    c.up d = c.renderRow (group d.content) >>= c.upNode d := by
  have hid : d.content.map (unopened []) = d.content :=
    (List.map_congr_left fun e _ => unopened_nil e).trans (List.map_id _)
  rw [up, upList_eq hc, hid]

end Composition
end RichDoc
