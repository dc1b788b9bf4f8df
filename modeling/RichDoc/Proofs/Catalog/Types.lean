import RichDoc.Proofs.Catalog.Converters
import RichDoc.Proofs.Content.Matching
import RichDoc.Proofs.Grammar.Made

/-!
# The types of the standard grammar

Each node type but text and each mark type but inline code has its converter, each kind is that of a converter or
one of a few (`kind_cases`), and the content that a node may have goes with the role of its converter.
-/

namespace RichDoc.Catalog

variable {x : NodeConverter} {y : MarkConverter} {d e : Document} {m : Mark} {ty : String} {given : Data}
  {content : List Document}

theorem ranked_standard : standardGrammar.Ranked := Grammar.ranked_of_pairwise (by decide)

theorem kind_cases (k : Kind) : (∃ x ∈ nodeConverters, x.kind = k) ∨ (∃ y ∈ markConverters, y.kind = k) ∨
    k = .text ∨ k = .inlineCode ∨ ∃ n, k = .other n := by
  cases k <;> simp [nodeConverters, markConverters]

/-- The kinds of node types are none of text, inline code and the marks. -/
theorem kind_ne (hx : x ∈ nodeConverters) :
    x.kind ≠ .text ∧ x.kind ≠ .inlineCode ∧ ∀ y ∈ markConverters, x.kind ≠ y.kind := by
  have hall : ∀ x ∈ nodeConverters, x.kind ≠ .text ∧ x.kind ≠ .inlineCode ∧ ∀ y ∈ markConverters, x.kind ≠ y.kind := by
    simp [nodeConverters, markConverters]
  exact hall x hx

theorem markKind_ne (hy : y ∈ markConverters) : y.kind ≠ .text ∧ y.kind ≠ .inlineCode := by
  have hall : ∀ y ∈ markConverters, y.kind ≠ .text ∧ y.kind ≠ .inlineCode := by
    simp [markConverters]
  exact hall y hy

theorem exists_nodeConverter {t : NodeType} (h : standardGrammar.nodeType? ty = some t) (hty : ty ≠ "text") :
    ∃ x ∈ nodeConverters, x.type = ty := by
  have hmem : t ∈ standardGrammar.nodes := by simpa using List.mem_of_find?_eq_some h
  have hname : t.name = ty := by simpa using List.find?_some h
  subst hname
  have hall : ∀ t ∈ standardGrammar.nodes, t.name ≠ "text" → ∃ x ∈ nodeConverters, x.type = t.name := by
    decide
  exact hall t hmem hty

theorem markType_cases {t : MarkType} (h : standardGrammar.markType? ty = some t) :
    ty = "code" ∨ ∃ y ∈ markConverters, y.type = ty := by
  obtain ⟨hmem, rfl⟩ := Grammar.markType?_eq_some h
  have hall : ∀ t ∈ standardGrammar.marks, t.name = "code" ∨ ∃ y ∈ markConverters, y.type = t.name := by
    decide
  exact hall t hmem

theorem isA_text (h : standardGrammar.isA ty "text") : ty = "text" := by
  have hnone : ∀ t ∈ standardGrammar.nodes, t.inGroup "text" = false := by decide
  simp only [Grammar.isA, Bool.or_eq_true, beq_iff_eq, Option.any_eq_true] at h
  rcases h with h | ⟨t, ht, hin⟩
  · exact h
  · have hmem : t ∈ standardGrammar.nodes := by simpa using List.mem_of_find?_eq_some ht
    simp [hnone t hmem] at hin

theorem role_spec {t : NodeType} (hx : x ∈ nodeConverters) (ht : standardGrammar.nodeType? x.type = some t) :
    (x.role = .leaf → t.content = none) ∧
      (x.role = .literal → t.content = some (star "text") ∧ t.spec.marks = .none) := by
  simp only [nodeConverters, List.mem_cons, List.not_mem_nil, or_false] at hx
  rcases hx with rfl | rfl | rfl | rfl | rfl | rfl | rfl | rfl | rfl | rfl | rfl | rfl | rfl | rfl
  all_goals
    cases ht
    exact ⟨by decide, fun h => by first | exact ⟨rfl, rfl⟩ | exact absurd h (by decide)⟩

theorem type_eq_doc_iff (hx : x ∈ nodeConverters) : x.type = "doc" ↔ x.kind = .root := by
  have hall : ∀ x ∈ nodeConverters, x.type = "doc" ↔ x.kind = .root := by
    simp [nodeConverters]
  exact hall x hx

theorem literal_iff (hx : x ∈ nodeConverters) : x.role = .literal ↔ x.type = "code_block" ∨ x.type = "html" := by
  have hall : ∀ x ∈ nodeConverters, x.role = .literal ↔ x.type = "code_block" ∨ x.type = "html" := by
    simp [nodeConverters]
  exact hall x hx

theorem type_ne_code (hy : y ∈ markConverters) : y.type ≠ "code" := by
  have hall : ∀ y ∈ markConverters, y.type ≠ "code" := by
    simp [markConverters]
  exact hall y hy

theorem content_of_leaf (hx : x ∈ nodeConverters) (hr : x.role = .leaf)
    (h : standardGrammar.node x.type given content = .ok e) : content = [] := by
  obtain ⟨t, a, ht, -, -, hc, -, -⟩ := Grammar.node_eq_ok.1 h
  rw [Grammar.checkContent, (role_spec hx ht).1 hr] at hc
  simpa using hc

/-- What a literal holds are text nodes without marks. -/
theorem content_of_literal (hx : x ∈ nodeConverters) (hr : x.role = .literal)
    (h : standardGrammar.node x.type given content = .ok e) : ∀ d ∈ content, d.type = "text" ∧ d.marks = [] := by
  obtain ⟨t, a, ht, -, -, hc, hm, -⟩ := Grammar.node_eq_ok.1 h
  obtain ⟨hcontent, hmarks⟩ := (role_spec hx ht).2 hr
  intro d hd
  constructor
  · simp only [Grammar.checkContent, hcontent] at hc
    split at hc
    · next hacc => exact isA_text ((Content.accepts_repeated_name.1 hacc).2.2 _ (List.mem_map_of_mem hd))
    · simp at hc
    · simp at hc
  · unfold Grammar.checkMarks at hm
    split at hm
    · simp at hm
    · next hnone =>
      rw [List.find?_eq_none] at hnone
      refine List.eq_nil_iff_forall_not_mem.2 fun m hmd => ?_
      have := hnone m (List.mem_flatMap.2 ⟨d, hd, hmd⟩)
      simp [hmarks, MarkPolicy.allows] at this

end RichDoc.Catalog
