import Mathlib.Data.List.Sort
import RichDoc.Proofs.Grammar.Made

/-!
# Valid documents

`Grammar.ValidAt g d` says of one node what the types of `g` ask of it: its text or its attributes and content, the
marks of its children, and its own marks. `Grammar.Session g ms ds` runs calls of the grammar one after the other,
each given only what earlier calls made; it has made the marks `ms` and the documents `ds`. A document can be made
exactly when all its nodes are valid (`exists_session_iff_valid`).

Between the two stands `Makes`: a session makes nothing else (`Session.makes`), and since two sessions can be run
one after the other (`Session.append`) there is one for every document that is made (`Makes.exists_session`).
-/

namespace RichDoc

theorem StringMap.mem_keys {α : Type} {m : StringMap α} {k : String} : k ∈ m.keys ↔ (m.get? k).isSome :=
  isSome_lookup.symm

/-- Two maps have the same keys if each key of one is a key of the other. -/
theorem StringMap.keys_eq_iff {α β : Type} {m : StringMap α} {n : StringMap β} :
    m.keys = n.keys ↔ ∀ k, (m.get? k).isSome ↔ (n.get? k).isSome := by
  constructor
  · intro h k
    rw [← mem_keys, ← mem_keys, h]
  · intro h
    have hm : m.keys.Pairwise (· < ·) := List.pairwise_map.2 m.sorted
    have hn : n.keys.Pairwise (· < ·) := List.pairwise_map.2 n.sorted
    refine hm.eq_of_mem_iff hn fun k => ?_
    rw [mem_keys, mem_keys, h]

/-- Attributes stay as they are given exactly when all that are declared are given and no others. -/
theorem AttrSpecs.fill_self_iff {owner : String} {given : Data} {specs : AttrSpecs} :
    fill owner given specs.entries = .ok given ↔ given.keys = specs.keys := by
  rw [StringMap.keys_eq_iff]
  constructor
  · intro h k
    constructor
    · intro hk
      rw [get?_fill h k] at hk
      cases hl : StringMap.lookup k specs.entries with
      | none => simp [hl] at hk
      | some dflt => simp [StringMap.get?, hl]
    · intro hk
      obtain ⟨dflt, hdflt⟩ := Option.isSome_iff_exists.1 hk
      exact isSome_of_fill h _ (StringMap.mem_of_lookup hdflt)
  · intro h
    obtain ⟨a, ha⟩ : ∃ a, fill owner given specs.entries = .ok a := fill_of_forall fun e he => by
      have hgiven := (h e.1).2 (StringMap.isSome_lookup.2 (List.mem_map_of_mem he))
      rw [Option.isSome_or, hgiven, Bool.true_or]
    rw [ha, eq_of_fill ha h]

namespace Grammar
variable {g : Grammar} {d : Document} {m : Mark} {t : NodeType}

/-! ### Valid nodes -/

/-- A text node: it holds a text and nothing else. -/
structure ValidText (g : Grammar) (d : Document) : Prop where
  type : d.type = "text"
  known : (g.nodeType? "text").isSome
  text : ∃ v ∈ d.text, v ≠ ""
  attrs : d.attrs = ∅
  content : d.content = []

/-- A node of type `t` that is no text. -/
structure ValidOfType (g : Grammar) (t : NodeType) (d : Document) : Prop where
  type : d.type ≠ "text"
  text : d.text = none
  attrs : d.attrs.keys = t.spec.attrs.keys
  leaf : t.isLeaf → d.content = []
  content : ∀ c ∈ t.content, c.accepts (fun child name => g.isA child name) (d.content.map (·.type)) = .ok true
  marks : ∀ e ∈ d.content, ∀ m ∈ e.marks, t.spec.marks.allows m.type

/-- A mark of a known type with the attributes that are declared. -/
def ValidMark (g : Grammar) (m : Mark) : Prop := ∃ t ∈ g.markType? m.type, m.attrs.keys = t.spec.attrs.keys

/-- What a grammar asks of one node. The ranks of its marks grow from each mark to the next. -/
structure ValidAt (g : Grammar) (d : Document) : Prop where
  body : g.ValidText d ∨ ∃ t ∈ g.nodeType? d.type, g.ValidOfType t d
  marks : ∀ m ∈ d.marks, g.ValidMark m
  ranked : d.marks.Pairwise g.Outer

/-- Every node is as the grammar asks. -/
def Valid (g : Grammar) (d : Document) : Prop := ∀ e ∈ d.nodes, g.ValidAt e

instance : Decidable (g.ValidText d) :=
  decidable_of_iff (d.type = "text" ∧ (g.nodeType? "text").isSome ∧ (∃ v ∈ d.text, v ≠ "") ∧ d.attrs = ∅ ∧
      d.content = [])
    ⟨fun ⟨h₁, h₂, h₃, h₄, h₅⟩ => ⟨h₁, h₂, h₃, h₄, h₅⟩, fun h => ⟨h.type, h.known, h.text, h.attrs, h.content⟩⟩

instance : Decidable (g.ValidOfType t d) :=
  decidable_of_iff (d.type ≠ "text" ∧ d.text = none ∧ d.attrs.keys = t.spec.attrs.keys ∧
      (t.isLeaf → d.content = []) ∧
      (∀ c ∈ t.content, c.accepts (fun child name => g.isA child name) (d.content.map (·.type)) = .ok true) ∧
      ∀ e ∈ d.content, ∀ m ∈ e.marks, t.spec.marks.allows m.type)
    ⟨fun ⟨h₁, h₂, h₃, h₄, h₅, h₆⟩ => ⟨h₁, h₂, h₃, h₄, h₅, h₆⟩,
      fun h => ⟨h.type, h.text, h.attrs, h.leaf, h.content, h.marks⟩⟩

instance : Decidable (g.ValidMark m) := by
  unfold ValidMark
  infer_instance

instance : Decidable (g.ValidAt d) :=
  decidable_of_iff ((g.ValidText d ∨ ∃ t ∈ g.nodeType? d.type, g.ValidOfType t d) ∧
      (∀ m ∈ d.marks, g.ValidMark m) ∧ d.marks.Pairwise g.Outer)
    ⟨fun ⟨h₁, h₂, h₃⟩ => ⟨h₁, h₂, h₃⟩, fun h => ⟨h.body, h.marks, h.ranked⟩⟩

instance : Decidable (g.Valid d) := by
  unfold Valid
  infer_instance

/-! ### Valid and sound nodes -/

theorem validMark_iff : g.ValidMark m ↔ g.mark m.type m.attrs = .ok m := by
  rw [mark_eq_ok]
  constructor
  · rintro ⟨t, ht, hkeys⟩
    exact ⟨t, m.attrs, ht, AttrSpecs.fill_self_iff.2 hkeys, rfl⟩
  · rintro ⟨t, a, ht, ha, hm⟩
    have hattrs : m.attrs = a := congrArg Mark.attrs hm
    subst hattrs
    exact ⟨t, ht, AttrSpecs.fill_self_iff.1 ha⟩

theorem validText_iff : g.ValidText d ↔ ∃ v, v ≠ "" ∧ (g.nodeType? "text").isSome ∧ d.bare = plain v := by
  constructor
  · intro h
    obtain ⟨v, hv, hne⟩ := h.text
    refine ⟨v, hne, h.known, ?_⟩
    rw [Document.bare, h.type, h.attrs, h.content, show d.text = some v from hv]
    rfl
  · rintro ⟨v, hne, hknown, hb⟩
    exact ⟨congrArg Document.type hb, hknown, ⟨v, congrArg Document.text hb, hne⟩, congrArg Document.attrs hb,
      congrArg Document.content hb⟩

theorem checkContent_eq_ok {cs : List Document} : g.checkContent t cs = .ok () ↔
    (t.isLeaf → cs = []) ∧ ∀ c ∈ t.content, c.accepts (fun child name => g.isA child name) (cs.map (·.type)) = .ok true := by
  cases hc : t.content with
  | none => simp [checkContent, NodeType.isLeaf, hc]
  | some c =>
    simp only [checkContent, NodeType.isLeaf, hc]
    split <;> simp_all

theorem checkMarks_eq_ok {cs : List Document} : checkMarks t cs = .ok () ↔
    ∀ e ∈ cs, ∀ m ∈ e.marks, t.spec.marks.allows m.type := by
  unfold checkMarks
  cases hf : (cs.flatMap (·.marks)).find? fun m => !t.spec.marks.allows m.type with
  | none =>
    simp only [true_iff]
    intro e he m hm
    have := List.find?_eq_none.1 hf m (List.mem_flatMap.2 ⟨e, he, hm⟩)
    simpa using this
  | some m =>
    simp only [reduceCtorEq, false_iff]
    intro hall
    obtain ⟨e, he, hm⟩ := List.mem_flatMap.1 (List.mem_of_find?_eq_some hf)
    have hnot := List.find?_some hf
    rw [hall e he m hm] at hnot
    cases hnot

theorem validOfType_iff : (∃ t ∈ g.nodeType? d.type, g.ValidOfType t d) ↔
    g.node d.type d.attrs d.content = .ok d.bare := by
  rw [node_eq_ok]
  constructor
  · rintro ⟨t, ht, h⟩
    refine ⟨t, d.attrs, ht, h.type, AttrSpecs.fill_self_iff.2 h.attrs, checkContent_eq_ok.2 ⟨h.leaf, h.content⟩,
      checkMarks_eq_ok.2 h.marks, ?_⟩
    rw [Document.bare, h.text]
  · rintro ⟨t, a, ht, hty, ha, hc, hm, hb⟩
    have hattrs : d.attrs = a := congrArg Document.attrs hb
    have htext : d.text = none := congrArg Document.text hb
    subst hattrs
    obtain ⟨hleaf, hcontent⟩ := checkContent_eq_ok.1 hc
    exact ⟨t, ht, hty, htext, AttrSpecs.fill_self_iff.1 ha, hleaf, hcontent, checkMarks_eq_ok.1 hm⟩

theorem validAt_iff_sound : g.ValidAt d ↔ g.Sound d := by
  constructor
  · intro h
    have hmark : ∀ m ∈ d.marks, g.mark m.type m.attrs = .ok m := fun m hm => validMark_iff.1 (h.marks m hm)
    refine ⟨⟨fun m hm => markRank?_of_mark (hmark m hm), h.ranked⟩, hmark, ?_⟩
    exact h.body.imp validText_iff.1 validOfType_iff.1
  · intro h
    exact ⟨h.body.imp validText_iff.2 validOfType_iff.2, fun m hm => validMark_iff.2 (h.mark m hm), h.marks.sorted⟩

/-! ### Sessions -/

/-- Calls of the grammar, each given only what earlier ones made, have made these marks and documents, the latest
first. A call that fails makes nothing. -/
inductive Session (g : Grammar) : List Mark → List Document → Prop where
  | start : Session g [] []
  | mark {ms : List Mark} {ds : List Document} {ty : String} {given : Data} {m : Mark} (s : Session g ms ds)
    (h : g.mark ty given = .ok m) : Session g (m :: ms) ds
  | text {ms : List Mark} {ds : List Document} {v : String} {us : List Mark} {d : Document} (s : Session g ms ds)
    (hus : us ⊆ ms) (h : g.text v us = .ok d) : Session g ms (d :: ds)
  | node {ms : List Mark} {ds : List Document} {ty : String} {given : Data} {content : List Document}
    {d : Document} (s : Session g ms ds) (hc : content ⊆ ds) (h : g.node ty given content = .ok d) :
    Session g ms (d :: ds)
  | addMark {ms : List Mark} {ds : List Document} {d e : Document} {m : Mark} (s : Session g ms ds) (hd : d ∈ ds)
    (hm : m ∈ ms) (h : g.addMark d m = .ok e) : Session g ms (e :: ds)

/-- A session makes only marks and documents that are made. -/
theorem Session.makes {ms : List Mark} {ds : List Document} (s : g.Session ms ds) :
    (∀ m ∈ ms, g.MakesMark m) ∧ ∀ d ∈ ds, g.Makes d := by
  induction s with
  | start => simp
  | mark s h ih => exact ⟨List.forall_mem_cons.2 ⟨⟨_, _, h⟩, ih.1⟩, ih.2⟩
  | text s hus h ih => exact ⟨ih.1, List.forall_mem_cons.2 ⟨.text (fun m hm => ih.1 m (hus hm)) h, ih.2⟩⟩
  | node s hc h ih => exact ⟨ih.1, List.forall_mem_cons.2 ⟨.node (fun e he => ih.2 e (hc he)) h, ih.2⟩⟩
  | addMark s hd hm h ih => exact ⟨ih.1, List.forall_mem_cons.2 ⟨.addMark (ih.2 _ hd) (ih.1 _ hm) h, ih.2⟩⟩

/-- Two sessions, one after the other. -/
theorem Session.append {ms ns : List Mark} {ds es : List Document} (s : g.Session ms ds) (s' : g.Session ns es) :
    g.Session (ns ++ ms) (es ++ ds) := by
  induction s' with
  | start => exact s
  | mark _ h ih => exact ih.mark h
  | text _ hus h ih => exact ih.text (fun m hm => List.mem_append_left _ (hus hm)) h
  | node _ hc h ih => exact ih.node (fun e he => List.mem_append_left _ (hc he)) h
  | addMark _ hd hm h ih => exact ih.addMark (List.mem_append_left _ hd) (List.mem_append_left _ hm) h

theorem exists_session_of_marks {us : List Mark} (hus : ∀ m ∈ us, g.MakesMark m) :
    ∃ ms, g.Session ms [] ∧ us ⊆ ms := by
  induction us with
  | nil => exact ⟨[], .start, List.nil_subset _⟩
  | cons m r ih =>
    obtain ⟨⟨ty, given, hm⟩, hr⟩ := List.forall_mem_cons.1 hus
    obtain ⟨ms, s, hms⟩ := ih hr
    exact ⟨m :: ms, s.mark hm, List.cons_subset_cons m hms⟩

theorem exists_session_of_documents {es : List Document} (h : ∀ e ∈ es, ∃ ms ds, g.Session ms ds ∧ e ∈ ds) :
    ∃ ms ds, g.Session ms ds ∧ es ⊆ ds := by
  induction es with
  | nil => exact ⟨[], [], .start, List.nil_subset _⟩
  | cons e r ih =>
    obtain ⟨⟨ms, ds, s, he⟩, hr⟩ := List.forall_mem_cons.1 h
    obtain ⟨ns, fs, s', hfs⟩ := ih hr
    refine ⟨_, _, s.append s', List.cons_subset.2 ⟨List.mem_append_right _ he, fun x hx => ?_⟩⟩
    exact List.mem_append_left _ (hfs hx)

/-- There is a session for every document that is made. -/
theorem Makes.exists_session (h : g.Makes d) : ∃ ms ds, g.Session ms ds ∧ d ∈ ds := by
  induction h with
  | text hms h =>
    obtain ⟨ms, s, hus⟩ := exists_session_of_marks hms
    exact ⟨_, _, s.text hus h, List.mem_cons_self⟩
  | node _ h ih =>
    obtain ⟨ms, ds, s, hc⟩ := exists_session_of_documents ih
    exact ⟨_, _, s.node hc h, List.mem_cons_self⟩
  | addMark _ hm h ih =>
    obtain ⟨ms, ds, s, hd⟩ := ih
    obtain ⟨ty, given, hm⟩ := hm
    exact ⟨_, _, (s.mark hm).addMark hd List.mem_cons_self h, List.mem_cons_self⟩

/-- A document can be made exactly when it is valid. -/
theorem exists_session_iff_valid {nodes : List (String × NodeSpec)} {marks : List (String × MarkSpec)}
    {top : Option String} (hg : build nodes marks top = .ok g) (d : Document) :
    (∃ ms ds, g.Session ms ds ∧ d ∈ ds) ↔ g.Valid d := by
  have hsound : g.Makes d ↔ g.Valid d := by
    rw [makes_iff_sound (ranked_build hg)]
    exact forall₂_congr fun e _ => validAt_iff_sound.symm
  constructor
  · rintro ⟨ms, ds, s, hd⟩
    exact hsound.1 (s.makes.2 d hd)
  · intro h
    exact (hsound.2 h).exists_session

/-- The grammar of letters: a line has an indent and lets its text carry one of the two marks only. -/
def letterGrammar : Grammar where
  nodes := [⟨"letter", { content := some "line+ (stamp | seal)?" },
      some (.seq [.repeated (.name "line") 1 none, .repeated (.choice [.name "stamp", .name "seal"]) 0 (some 1)])⟩,
    ⟨"line", { content := some "text*", marks := .only ["em"], attrs := .ofList [("indent", some (.int 0))] },
      some (.repeated (.name "text") 0 none)⟩,
    ⟨"stamp", { groups := ["seal"] }, none⟩, ⟨"text", {}, none⟩]
  marks := [⟨"strong", 0, {}⟩, ⟨"em", 1, {}⟩]
  top := some "letter"

/-- A letter of one line; the marks that a line does not let its text carry stand on the line. -/
def letter : Document :=
  ⟨"letter", ∅, [
    ⟨"line", .ofList [("indent", .int 2)], [⟨"text", ∅, [], some "a", [⟨"em", ∅⟩]⟩], none,
      [⟨"strong", ∅⟩, ⟨"em", ∅⟩]⟩,
    ⟨"stamp", ∅, [], none, []⟩], none, []⟩

/-- A letter is valid, so some session makes it. -/
theorem exists_session_letter :
    build (letterGrammar.nodes.map fun t => (t.name, t.spec)) (letterGrammar.marks.map fun t => (t.name, t.spec))
        letterGrammar.top = .ok letterGrammar ∧
      letterGrammar.Valid letter ∧ ∃ ms ds, letterGrammar.Session ms ds ∧ letter ∈ ds := by
  have hbuild : build (letterGrammar.nodes.map fun t => (t.name, t.spec))
      (letterGrammar.marks.map fun t => (t.name, t.spec)) letterGrammar.top = .ok letterGrammar := by
    with_unfolding_all rfl
  have hvalid : letterGrammar.Valid letter := by decide +kernel
  exact ⟨hbuild, hvalid, (exists_session_iff_valid hbuild letter).2 hvalid⟩

end Grammar
end RichDoc
