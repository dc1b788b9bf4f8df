import Mathlib.Data.List.Induction
import Mathlib.Data.List.Sort
import RichDoc.Proofs.Grammar.Made
import RichDoc.Proofs.Results

/-!
# Mark sets

The marks of a node that a grammar gives are a set: in order of rank, one of each type, the last that was put on
(`marks_canonical`). So the order in which marks of different types are put on does not show, nor does putting one on
again.
-/

namespace RichDoc
namespace Grammar
variable {g : Grammar} {d e : Document} {m n : Mark} {ms ns : List Mark} {v : String}

instance : Std.Irrefl g.Outer := ⟨fun _ h => h.asymm h⟩

instance : Std.Antisymm g.Outer := ⟨fun _ _ h h' => absurd h' h.asymm⟩

/-- Marks in order of rank are fixed by which they are. -/
theorem InRank.eq_of_mem_iff (h : g.InRank ms) (h' : g.InRank ns) (hmem : ∀ m, m ∈ ms ↔ m ∈ ns) : ms = ns :=
  h.sorted.eq_of_mem_iff h'.sorted hmem

theorem known_iff : (∃ i, g.markRank? m.type = some i) ↔ (g.markType? m.type).isSome := by
  simp [markRank?, Option.isSome_iff_exists]

theorem addMark_eq_ok :
    g.addMark d m = .ok e ↔ (∃ i, g.markRank? m.type = some i) ∧ e = g.withMark m d := by
  cases hi : g.markRank? m.type with
  | none => simp [addMark, hi]
  | some i => simp [addMark_eq hi, eq_comm]

/-- A node with its marks in order of rank is fixed by what it is without them and by which they are. -/
theorem InRank.document_eq (hd : g.InRank d.marks) (he : g.InRank e.marks) (hbare : d.bare = e.bare)
    (hmem : ∀ m, m ∈ d.marks ↔ m ∈ e.marks) : d = e := by
  have hmarks := hd.eq_of_mem_iff he hmem
  obtain ⟨ty, as, cs, t, ms⟩ := d
  obtain ⟨ty', as', cs', t', ms'⟩ := e
  cases hbare
  exact congrArg _ hmarks

/-! ### One mark after the other -/

theorem withMark_comm (hg : g.Ranked) (hd : g.InRank d.marks) (hm : ∃ i, g.markRank? m.type = some i)
    (hn : ∃ i, g.markRank? n.type = some i) (hne : m.type ≠ n.type) :
    g.withMark n (g.withMark m d) = g.withMark m (g.withMark n d) := by
  obtain ⟨i, hi⟩ := hm
  obtain ⟨j, hj⟩ := hn
  refine InRank.document_eq (inRank_withMark hg (inRank_withMark hg hd hi) hj)
    (inRank_withMark hg (inRank_withMark hg hd hj) hi) rfl fun x => ?_
  simp only [mem_marks_withMark]
  grind

theorem withMark_of_mem (hg : g.Ranked) (hd : g.InRank d.marks) (hm : m ∈ d.marks) : g.withMark m d = d := by
  obtain ⟨i, hi⟩ := hd.known m hm
  refine InRank.document_eq (inRank_withMark hg hd hi) hd rfl fun x => ?_
  rw [mem_marks_withMark]
  constructor
  · rintro (rfl | ⟨hx, -⟩)
    exacts [hm, hx]
  · intro hx
    exact or_iff_not_imp_left.2 fun hne => ⟨hx, fun htype => hne (hd.eq_of_type hx hm htype)⟩

/-- The last of the marks that is of a type. -/
def lastOf (ty : String) (ms : List Mark) : Option Mark := (ms.filter (·.type == ty)).getLast?

theorem lastOf_concat (ty : String) (ms : List Mark) (n : Mark) :
    lastOf ty (ms ++ [n]) = if n.type = ty then some n else lastOf ty ms := by
  rw [lastOf, List.filter_append]
  split
  · next h => simp [h]
  · next h => simp [h, lastOf]

/-- Of marks that are put on one after the other the last of each type stays. -/
theorem mem_marks_foldl :
    m ∈ (ms.foldl (fun d m => g.withMark m d) d).marks ↔
      lastOf m.type ms = some m ∨ m ∈ d.marks ∧ ∀ n ∈ ms, n.type ≠ m.type := by
  induction ms using List.reverseRecOn with
  | nil => simp [lastOf]
  | append_singleton ms n ih =>
    rw [List.foldl_concat, mem_marks_withMark, ih, lastOf_concat]
    by_cases hn : n.type = m.type
    · simp [hn, eq_comm]
    · have hne : m ≠ n := fun h => hn (h ▸ rfl)
      simp [hn, hne, Ne.symm hn, or_imp, forall_and]

theorem inRank_foldl (hg : g.Ranked) (hms : ∀ m ∈ ms, ∃ i, g.markRank? m.type = some i) (hd : g.InRank d.marks) :
    g.InRank (ms.foldl (fun d m => g.withMark m d) d).marks := by
  induction ms generalizing d with
  | nil => exact hd
  | cons m r ih =>
    obtain ⟨⟨i, hi⟩, hr⟩ := List.forall_mem_cons.1 hms
    exact ih hr (inRank_withMark hg hd hi)

/-! ### Nodes that a grammar gives -/

/-- A call of the grammar gives the node. The marks and the content that it is given may come from anywhere, and a
node that is marked comes from the grammar. -/
inductive Gives (g : Grammar) : Document → Prop where
  | text {v : String} {ms : List Mark} {d : Document} (h : g.text v ms = .ok d) : Gives g d
  | node {ty : String} {given : Data} {content : List Document} {d : Document}
    (h : g.node ty given content = .ok d) : Gives g d
  | addMark {d e : Document} {m : Mark} (hd : Gives g d) (h : g.addMark d m = .ok e) : Gives g e

theorem inRank_foldlM (hg : g.Ranked) (hd : g.InRank d.marks) (h : ms.foldlM g.addMark d = .ok e) :
    g.InRank e.marks := by
  induction ms generalizing d with
  | nil =>
    cases h
    exact hd
  | cons m r ih =>
    rw [List.foldlM_cons, bind_eq_ok] at h
    obtain ⟨d', hadd, h⟩ := h
    obtain ⟨⟨i, hi⟩, rfl⟩ := addMark_eq_ok.1 hadd
    exact ih (inRank_withMark hg hd hi) h

/-- The marks of a node that the grammar gives stand in order of rank. -/
theorem Gives.inRank (hg : g.Ranked) (h : g.Gives d) : g.InRank d.marks := by
  induction h with
  | text h =>
    obtain ⟨-, -, h⟩ := text_eq_ok_iff.1 h
    exact inRank_foldlM hg .nil h
  | node h => exact (node_node h).2.2.2 ▸ .nil
  | addMark _ h ih =>
    obtain ⟨⟨i, hi⟩, rfl⟩ := addMark_eq_ok.1 h
    exact inRank_withMark hg ih hi

/-! ### Texts with marks -/

theorem text_of_known (ht : (g.nodeType? "text").isSome) (hv : v ≠ "")
    (hms : ∀ m ∈ ms, ∃ i, g.markRank? m.type = some i) :
    g.text v ms = .ok (ms.foldl (fun d m => g.withMark m d) (plain v)) :=
  (text_eq_ok hms).2 ⟨ht, hv, rfl⟩

theorem bare_foldl (ms : List Mark) (d : Document) : (ms.foldl (fun d m => g.withMark m d) d).bare = d.bare := by
  induction ms generalizing d with
  | nil => rfl
  | cons m r ih => exact (ih _).trans bare_withMark

theorem mem_marks_foldl_plain : m ∈ (ms.foldl (fun d m => g.withMark m d) (plain v)).marks ↔
    lastOf m.type ms = some m := by
  simp [mem_marks_foldl, plain]

/-- Of the order in which marks are put on a text only that of marks of one type shows. -/
theorem foldl_congr_of_filter (hg : g.Ranked) (hms : ∀ m ∈ ms, ∃ i, g.markRank? m.type = some i)
    (hns : ∀ m ∈ ns, ∃ i, g.markRank? m.type = some i)
    (h : ∀ ty, ns.filter (·.type == ty) = ms.filter (·.type == ty)) :
    ns.foldl (fun d m => g.withMark m d) (plain v) = ms.foldl (fun d m => g.withMark m d) (plain v) := by
  refine InRank.document_eq (inRank_foldl hg hns .nil) (inRank_foldl hg hms .nil) ?_ fun m => ?_
  · rw [bare_foldl, bare_foldl]
  · rw [mem_marks_foldl_plain, mem_marks_foldl_plain, lastOf, lastOf, h]

theorem mem_of_filter_eq (h : ∀ ty, ns.filter (·.type == ty) = ms.filter (·.type == ty)) (hm : m ∈ ns) : m ∈ ms := by
  have hmem : m ∈ ns.filter (·.type == m.type) := List.mem_filter.2 ⟨hm, by simp⟩
  rw [h] at hmem
  exact (List.mem_filter.1 hmem).1

theorem addMark_addMark_eq_ok : (g.addMark d m >>= fun d => g.addMark d n) = .ok e ↔
    (∃ i, g.markRank? m.type = some i) ∧ (∃ i, g.markRank? n.type = some i) ∧
      e = g.withMark n (g.withMark m d) := by
  rw [bind_eq_ok]
  simp only [addMark_eq_ok]
  constructor
  · rintro ⟨_, ⟨hm, rfl⟩, hn, rfl⟩
    exact ⟨hm, hn, rfl⟩
  · rintro ⟨hm, hn, rfl⟩
    exact ⟨_, ⟨hm, rfl⟩, hn, rfl⟩

/-- A text with marks of known types is a node whose marks are, in order of rank, the last of each type. Only the
order of marks of one type shows in it. Marks of different types go onto a node in any order, and a mark that is there
already changes nothing. -/
theorem marks_canonical {nodes : List (String × NodeSpec)} {marks : List (String × MarkSpec)} {top : Option String}
    (hg : build nodes marks top = .ok g) :
    (∀ v ms, v ≠ "" → (g.nodeType? "text").isSome → (∀ m ∈ ms, (g.markType? m.type).isSome) →
      (∃ d, g.text v ms = .ok d ∧ d.bare = plain v ∧ d.marks.Pairwise g.Outer ∧
        ∀ m, m ∈ d.marks ↔ lastOf m.type ms = some m) ∧
      ∀ ns, (∀ ty, ns.filter (·.type == ty) = ms.filter (·.type == ty)) → g.text v ns = g.text v ms) ∧
    ∀ d, g.Gives d →
      (∀ m n, m.type ≠ n.type →
        (∀ e, (g.addMark d m >>= fun d => g.addMark d n) = .ok e ↔
          (g.addMark d n >>= fun d => g.addMark d m) = .ok e) ∧
        ((g.markType? m.type).isSome → (g.markType? n.type).isSome →
          ∃ e, (g.addMark d m >>= fun d => g.addMark d n) = .ok e)) ∧
      ∀ m ∈ d.marks, g.addMark d m = .ok d := by
  have hranked := ranked_build hg
  simp only [← known_iff]
  refine ⟨fun v ms hv ht hms => ⟨?_, fun ns hns => ?_⟩,
    fun d hd => ⟨fun m n hne => ⟨fun e => ?_, ?_⟩, fun m hm => ?_⟩⟩
  · exact ⟨_, text_of_known ht hv hms, bare_foldl ms _, (inRank_foldl hranked hms .nil).sorted,
      fun m => mem_marks_foldl_plain⟩
  · have hknown : ∀ m ∈ ns, ∃ i, g.markRank? m.type = some i := fun m hm => hms m (mem_of_filter_eq hns hm)
    rw [text_of_known ht hv hms, text_of_known ht hv hknown, foldl_congr_of_filter hranked hms hknown hns]
  · rw [addMark_addMark_eq_ok, addMark_addMark_eq_ok, and_left_comm]
    refine and_congr_right fun hn => and_congr_right fun hm => ?_
    rw [withMark_comm hranked (hd.inRank hranked) hm hn hne]
  · exact fun hm hn => ⟨_, addMark_addMark_eq_ok.2 ⟨hm, hn, rfl⟩⟩
  · rw [addMark_eq_ok, withMark_of_mem hranked (hd.inRank hranked) hm]
    exact ⟨(hd.inRank hranked).known m hm, rfl⟩

/-- A grammar of texts that declares `em` twice; the later declaration puts it inside links. -/
def annotated : Grammar where
  nodes := [⟨"text", {}, none⟩]
  marks := [⟨"em", 0, {}⟩, ⟨"link", 1, { inclusive := false }⟩, ⟨"em", 2, {}⟩]
  top := none

/-- A link to a place. -/
def linkTo (url : String) : Mark := ⟨"link", .ofList [("url", .str url)]⟩

/-- Whether a text is emphasised before it is linked twice or after, it has the later link and inside it the emphasis. -/
theorem text_linked_twice :
    build [("text", {})] [("em", {}), ("link", { inclusive := false }), ("em", {})] none = .ok annotated ∧
      annotated.text "x" [linkTo "a", linkTo "b", ⟨"em", ∅⟩] = annotated.text "x" [⟨"em", ∅⟩, linkTo "a", linkTo "b"] ∧
      annotated.text "x" [⟨"em", ∅⟩, linkTo "a", linkTo "b"] =
        .ok ⟨"text", ∅, [], some "x", [linkTo "b", ⟨"em", ∅⟩]⟩ ∧
      annotated.addMark ⟨"text", ∅, [], some "x", [linkTo "b", ⟨"em", ∅⟩]⟩ (linkTo "b") =
        .ok ⟨"text", ∅, [], some "x", [linkTo "b", ⟨"em", ∅⟩]⟩ := by
  have hbuild : build [("text", {})] [("em", {}), ("link", { inclusive := false }), ("em", {})] none = .ok annotated :=
    rfl
  have htext : annotated.text "x" [⟨"em", ∅⟩, linkTo "a", linkTo "b"] =
      .ok ⟨"text", ∅, [], some "x", [linkTo "b", ⟨"em", ∅⟩]⟩ := by rfl
  obtain ⟨hsets, hgiven⟩ := marks_canonical hbuild
  obtain ⟨-, horder⟩ := hsets "x" [⟨"em", ∅⟩, linkTo "a", linkTo "b"] (by decide) (by decide) (by decide)
  refine ⟨hbuild, horder _ fun ty => ?_, htext, (hgiven _ (.text htext)).2 _ (by simp)⟩
  by_cases hty : ty = "em"
  · subst hty
    rfl
  · have hem : ("em" == ty) = false := beq_false_of_ne (Ne.symm hty)
    simp [List.filter_cons, hem]

end Grammar
end RichDoc
