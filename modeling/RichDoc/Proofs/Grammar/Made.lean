import Mathlib.Data.List.Basic
import RichDoc.Proofs.Grammar.Marks

/-!
# Made documents

`Grammar.Makes g d`: calls of the grammar make `d`, each given only what such calls made before. Every node of a
made document is `Grammar.Sound`: asked again for a node of its type, attributes and content, the grammar makes
the node itself. The converse holds too (`makes_iff_sound`).
-/

namespace RichDoc

theorem StringMap.mem_of_lookup {α : Type} {k : String} {v : α} {es : List (String × α)}
    (h : lookup k es = some v) : (k, v) ∈ es := by
  induction es with
  | nil => simp [lookup] at h
  | cons e r ih =>
    by_cases hk : k = e.1
    · simp only [lookup, hk, if_true, Option.some.injEq] at h
      simp [hk, ← h]
    · simp only [lookup, hk, if_false] at h
      exact List.mem_cons_of_mem _ (ih h)

theorem StringMap.isSome_lookup {α : Type} {es : List (String × α)} {k : String} :
    (lookup k es).isSome ↔ k ∈ es.map Prod.fst := by
  induction es with
  | nil => simp [lookup]
  | cons e r ih =>
    by_cases he : k = e.1
    · simp [lookup, he]
    · simp only [lookup, he, if_false, ih, List.map_cons, List.mem_cons, false_or]

namespace AttrSpecs
variable {owner : String} {given a : Data} {es : List (String × Option Json)}

theorem fill_cons {k : String} {dflt : Option Json} :
    fill owner given ((k, dflt) :: es) =
      match (given.get? k).or dflt with
      | some v => do return (← fill owner given es).insert k v
      | none => .error (.missingAttribute owner k) := by
  cases h : given.get? k <;> cases dflt <;> simp [fill, h]

theorem fill_cons_eq_ok {k : String} {dflt : Option Json} :
    fill owner given ((k, dflt) :: es) = .ok a ↔
      ∃ v b, (given.get? k).or dflt = some v ∧ fill owner given es = .ok b ∧ a = b.insert k v := by
  rw [fill_cons]
  cases h : (given.get? k).or dflt with
  | none => simp
  | some v =>
    cases hb : fill owner given es with
    | error e => simp [bind, Except.bind]
    | ok b => simp [bind, Except.bind, pure, Except.pure, eq_comm]

theorem get?_fill (h : fill owner given es = .ok a) (k : String) :
    a.get? k = (StringMap.lookup k es).bind fun dflt => (given.get? k).or dflt := by
  induction es generalizing a with
  | nil =>
    simp only [fill, Except.ok.injEq] at h
    subst h
    rfl
  | cons e r ih =>
    obtain ⟨k', dflt⟩ := e
    obtain ⟨v, b, hv, hb, rfl⟩ := fill_cons_eq_ok.1 h
    rw [StringMap.get?_insert]
    by_cases hk : k = k'
    · subst hk
      simp [StringMap.lookup, hv]
    · simp [StringMap.lookup, hk, ih hb]

theorem fill_of_forall (h : ∀ e ∈ es, ((given.get? e.1).or e.2).isSome) : ∃ a, fill owner given es = .ok a := by
  induction es with
  | nil => exact ⟨∅, rfl⟩
  | cons e r ih =>
    obtain ⟨k, dflt⟩ := e
    obtain ⟨b, hb⟩ := ih fun e he => h e (List.mem_cons_of_mem _ he)
    obtain ⟨v, hv⟩ := Option.isSome_iff_exists.1 (h _ (List.mem_cons_self ..))
    exact ⟨b.insert k v, fill_cons_eq_ok.2 ⟨v, b, hv, hb, rfl⟩⟩

theorem isSome_of_fill (h : fill owner given es = .ok a) : ∀ e ∈ es, (a.get? e.1).isSome := by
  induction es generalizing a with
  | nil => simp
  | cons e r ih =>
    obtain ⟨v, b, hv, hb, rfl⟩ := fill_cons_eq_ok.1 h
    intro x hx
    rw [StringMap.get?_insert]
    split
    · rfl
    · next hne => exact ih hb x ((List.mem_cons.1 hx).resolve_left fun he => hne (he ▸ rfl))

/-- Filled attributes are complete: to fill them again changes nothing. -/
theorem fill_fill (h : fill owner given es = .ok a) : fill owner a es = .ok a := by
  have hall := isSome_of_fill h
  obtain ⟨b, hb⟩ : ∃ b, fill owner a es = .ok b := fill_of_forall fun e he => by
    rw [Option.isSome_or, hall e he, Bool.true_or]
  have hab : b = a := by
    refine StringMap.ext_get? fun k => ?_
    rw [get?_fill hb k]
    cases hk : StringMap.lookup k es with
    | none =>
      rw [get?_fill h k, hk]
      rfl
    | some dflt =>
      have hmem := StringMap.mem_of_lookup hk
      obtain ⟨v, hv⟩ := Option.isSome_iff_exists.1 (hall _ hmem)
      simp only at hv
      simp [hv]
  rw [hb, hab]

/-- To fill in attributes that are given, all that are declared and no others, changes nothing. -/
theorem eq_of_fill (h : fill owner given es = .ok a)
    (hkeys : ∀ k, (given.get? k).isSome ↔ (StringMap.lookup k es).isSome) : a = given := by
  refine StringMap.ext_get? fun k => ?_
  rw [get?_fill h]
  cases hl : StringMap.lookup k es with
  | none =>
    have hk : ¬ (given.get? k).isSome := by simp [hkeys, hl]
    exact (Option.not_isSome_iff_eq_none.1 hk).symm
  | some dflt =>
    obtain ⟨v, hv⟩ := Option.isSome_iff_exists.1 ((hkeys k).2 (by simp [hl]))
    simp [hv]

end AttrSpecs

namespace Grammar
variable {g : Grammar} {d : Document} {m : Mark} {ty v : String} {given : Data} {content : List Document}

theorem node_eq_ok : g.node ty given content = .ok d ↔
    ∃ t a, g.nodeType? ty = some t ∧ ty ≠ "text" ∧ AttrSpecs.fill ty given t.spec.attrs.entries = .ok a ∧
      g.checkContent t content = .ok () ∧ checkMarks t content = .ok () ∧ d = ⟨ty, a, content, none, []⟩ := by
  unfold node
  cases ht : g.nodeType? ty with
  | none => simp
  | some t =>
    by_cases hty : ty = "text"
    · simp [hty]
    simp only [hty, if_false]
    cases ha : AttrSpecs.fill ty given t.spec.attrs.entries with
    | error e => simp [ha, bind, Except.bind]
    | ok a =>
      cases hc : g.checkContent t content with
      | error e => simp [hc, bind, Except.bind]
      | ok u =>
        cases hm : checkMarks t content with
        | error e => simp [hm, bind, Except.bind]
        | ok w => simp [ha, hc, hm, hty, bind, Except.bind, pure, Except.pure, eq_comm]

theorem mark_eq_ok : g.mark ty given = .ok m ↔
    ∃ t a, g.markType? ty = some t ∧ AttrSpecs.fill ty given t.spec.attrs.entries = .ok a ∧ m = ⟨ty, a⟩ := by
  unfold mark
  cases ht : g.markType? ty with
  | none => simp
  | some t =>
    cases ha : AttrSpecs.fill ty given t.spec.attrs.entries with
    | error e => simp [ha, bind, Except.bind]
    | ok a => simp [ha, bind, Except.bind, pure, Except.pure, eq_comm]

/-- A node that is made is made again of its own attributes and content. -/
theorem node_node (h : g.node ty given content = .ok d) :
    g.node d.type d.attrs d.content = .ok d ∧ d.type = ty ∧ d.content = content ∧ d.marks = [] := by
  obtain ⟨t, a, ht, hty, ha, hc, hm, rfl⟩ := node_eq_ok.1 h
  exact ⟨node_eq_ok.2 ⟨t, a, ht, hty, AttrSpecs.fill_fill ha, hc, hm, rfl⟩, rfl, rfl, rfl⟩

/-- A mark that is made is made again of its own attributes. -/
theorem mark_mark (h : g.mark ty given = .ok m) : g.mark m.type m.attrs = .ok m ∧ m.type = ty := by
  obtain ⟨t, a, ht, ha, rfl⟩ := mark_eq_ok.1 h
  exact ⟨mark_eq_ok.2 ⟨t, a, ht, AttrSpecs.fill_fill ha, rfl⟩, rfl⟩

theorem markRank?_of_mark (h : g.mark ty given = .ok m) : ∃ i, g.markRank? m.type = some i := by
  obtain ⟨t, a, ht, ha, rfl⟩ := mark_eq_ok.1 h
  exact ⟨t.rank, by simp [markRank?, ht]⟩

/-- The grammar makes the mark. -/
def MakesMark (g : Grammar) (m : Mark) : Prop := ∃ ty given, g.mark ty given = .ok m

/-- Calls of the grammar make the document, each given only what such calls made before. -/
inductive Makes (g : Grammar) : Document → Prop where
  | text {v : String} {ms : List Mark} {d : Document} (hms : ∀ m ∈ ms, g.MakesMark m) (h : g.text v ms = .ok d) :
    Makes g d
  | node {ty : String} {given : Data} {content : List Document} {d : Document} (hc : ∀ e ∈ content, Makes g e)
    (h : g.node ty given content = .ok d) : Makes g d
  | addMark {d e : Document} {m : Mark} (hd : Makes g d) (hm : g.MakesMark m) (h : g.addMark d m = .ok e) :
    Makes g e

/-- The text node of a text, without marks. -/
def plain (v : String) : Document := ⟨"text", ∅, [], some v, []⟩

/-- What holds of every node of a made document. -/
structure Sound (g : Grammar) (d : Document) : Prop where
  marks : g.InRank d.marks
  mark : ∀ m ∈ d.marks, g.mark m.type m.attrs = .ok m
  body : (∃ v, v ≠ "" ∧ (g.nodeType? "text").isSome ∧ d.bare = plain v) ∨
    g.node d.type d.attrs d.content = .ok d.bare

instance (d : Document) : Decidable (g.Sound d) :=
  decidable_of_iff (g.InRank d.marks ∧ (∀ m ∈ d.marks, g.mark m.type m.attrs = .ok m) ∧
      ((d.text.any (· ≠ "") ∧ (g.nodeType? "text").isSome ∧ d.bare = plain (d.text.getD "")) ∨
        g.node d.type d.attrs d.content = .ok d.bare)) <| by
    constructor
    · rintro ⟨hr, hm, ⟨hv, ht, hd⟩ | h⟩
      · obtain ⟨v, hv, hne⟩ := (Option.any_eq_true _ _).1 hv
        exact ⟨hr, hm, .inl ⟨v, by simpa using hne, ht, by simpa [hv] using hd⟩⟩
      · exact ⟨hr, hm, .inr h⟩
    · rintro ⟨hr, hm, ⟨v, hv, ht, hd⟩ | h⟩
      · have htext : d.text = some v := congrArg Document.text hd
        exact ⟨hr, hm, .inl ⟨by simpa [htext] using hv, ht, by simpa [htext] using hd⟩⟩
      · exact ⟨hr, hm, .inr h⟩

theorem MakesMark.known (hm : g.MakesMark m) : ∃ i, g.markRank? m.type = some i := by
  obtain ⟨ty, given, hm⟩ := hm
  exact markRank?_of_mark hm

theorem Sound.withMark (hg : g.Ranked) (hd : g.Sound d) (hm : g.MakesMark m) : g.Sound (g.withMark m d) := by
  obtain ⟨i, hi⟩ := hm.known
  obtain ⟨ty, given, hm⟩ := hm
  refine ⟨inRank_withMark hg hd.marks hi, fun n hn => ?_, hd.body⟩
  rcases mem_marks_withMark.1 hn with rfl | ⟨hn, -⟩
  · exact (mark_mark hm).1
  · exact hd.mark n hn

theorem addMark_of_makesMark (hm : g.MakesMark m) : g.addMark d m = .ok (g.withMark m d) := by
  obtain ⟨i, hi⟩ := hm.known
  exact addMark_eq hi

theorem foldlM_addMark {ms : List Mark} (hms : ∀ m ∈ ms, ∃ i, g.markRank? m.type = some i) (d : Document) :
    ms.foldlM g.addMark d = .ok (ms.foldl (fun d m => g.withMark m d) d) := by
  induction ms generalizing d with
  | nil => rfl
  | cons m r ih =>
    obtain ⟨i, hi⟩ := hms m (List.mem_cons_self ..)
    rw [List.foldlM_cons, addMark_eq hi]
    exact ih (fun n hn => hms n (List.mem_cons_of_mem _ hn)) _

/-- A text node is a plain text with one mark put on after the other. -/
theorem text_eq_ok_iff {ms : List Mark} : g.text v ms = .ok d ↔
    (g.nodeType? "text").isSome ∧ v ≠ "" ∧ ms.foldlM g.addMark (plain v) = .ok d := by
  unfold text
  rw [show (⟨"text", ∅, [], some v, []⟩ : Document) = plain v from rfl]
  by_cases ht : (g.nodeType? "text").isSome
  · by_cases hv : v = ""
    · simp [hv, Option.isSome_iff_ne_none.1 ht]
    · have he : v.isEmpty = false := by simpa using hv
      simp [ht, he, hv, Option.isSome_iff_ne_none.1 ht]
  · have hn : (g.nodeType? "text").isNone := by simpa using ht
    simp [hn, ht]

theorem text_eq_ok {ms : List Mark} (hms : ∀ m ∈ ms, ∃ i, g.markRank? m.type = some i) : g.text v ms = .ok d ↔
    (g.nodeType? "text").isSome ∧ v ≠ "" ∧ d = ms.foldl (fun d m => g.withMark m d) (plain v) := by
  rw [text_eq_ok_iff, foldlM_addMark hms, Except.ok.injEq]
  exact and_congr_right fun _ => and_congr_right fun _ => eq_comm

theorem sound_foldl {ms : List Mark} (hg : g.Ranked) (hms : ∀ m ∈ ms, g.MakesMark m) (hd : g.Sound d) :
    g.Sound (ms.foldl (fun d m => g.withMark m d) d) ∧
      (ms.foldl (fun d m => g.withMark m d) d).content = d.content := by
  induction ms generalizing d with
  | nil => exact ⟨hd, rfl⟩
  | cons m r ih =>
    exact ih (fun n hn => hms n (List.mem_cons_of_mem _ hn)) (hd.withMark hg (hms m (List.mem_cons_self ..)))

/-- Every node of a made document is sound. -/
theorem Makes.sound (hg : g.Ranked) (h : g.Makes d) : ∀ e ∈ d.nodes, g.Sound e := by
  induction h with
  | @text v ms d hms h =>
    obtain ⟨ht, hv, rfl⟩ := (text_eq_ok fun m hm => (hms m hm).known).1 h
    have hplain : g.Sound (plain v) := ⟨.nil, by simp [plain], .inl ⟨v, hv, ht, rfl⟩⟩
    obtain ⟨hs, hc⟩ := sound_foldl hg hms hplain
    refine Document.forall_nodes.2 ⟨hs, ?_⟩
    rw [hc]
    simp [plain]
  | @node ty given content d hc h ih =>
    obtain ⟨hself, -, hcontent, hmarks⟩ := node_node h
    refine Document.forall_nodes.2 ⟨⟨hmarks ▸ .nil, by simp [hmarks], .inr ?_⟩, ?_⟩
    · rw [Document.bare_eq hmarks]
      exact hself
    · rw [hcontent]
      exact ih
  | @addMark d e m hd hm h ih =>
    rw [addMark_of_makesMark hm] at h
    cases h
    obtain ⟨hs, hcontent⟩ := Document.forall_nodes.1 ih
    exact Document.forall_nodes.2 ⟨hs.withMark hg hm, hcontent⟩

theorem makes_withMarks {e : Document} {ms : List Mark} (hms : ∀ m ∈ ms, g.MakesMark m) (he : g.Makes e) :
    g.Makes (ms.foldl (fun d m => g.withMark m d) e) := by
  induction ms generalizing e with
  | nil => exact he
  | cons m r ih =>
    have hm := hms m (List.mem_cons_self ..)
    exact ih (fun n hn => hms n (List.mem_cons_of_mem _ hn)) (.addMark he hm (addMark_of_makesMark hm))

/-- A document whose nodes are all sound is made. -/
theorem makes_of_sound (h : ∀ e ∈ d.nodes, g.Sound e) : g.Makes d := by
  induction d using Document.induct with
  | step d ih =>
    obtain ⟨hd, hcontent⟩ := Document.forall_nodes.1 h
    have hms : ∀ m ∈ d.marks, g.MakesMark m := fun m hm => ⟨_, _, hd.mark m hm⟩
    have hfold : d.marks.foldl (fun d m => g.withMark m d) d.bare = d := by
      rw [foldl_withMark d.bare (by simpa using hd.marks)]
      simp [Document.bare]
    rcases hd.body with ⟨v, hv, ht, hb⟩ | hnode
    · exact .text hms ((text_eq_ok hd.marks.known).2 ⟨ht, hv, by rw [← hb, hfold]⟩)
    · rw [← hfold]
      exact makes_withMarks hms (.node (fun e he => ih e he (hcontent e he)) hnode)

/-- The made documents are those whose nodes are all sound. -/
theorem makes_iff_sound (hg : g.Ranked) : g.Makes d ↔ ∀ e ∈ d.nodes, g.Sound e :=
  ⟨Makes.sound hg, makes_of_sound⟩

end Grammar
end RichDoc
