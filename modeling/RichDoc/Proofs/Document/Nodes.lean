import RichDoc.Conversion.Up

/-!
# The nodes of a document

`Document.nodes` lists a document's nodes in order, so that a condition at every depth is a condition on the
members of one list. `Document.bare` is a node without its own marks: what a converter makes of it, before the
list that it stands in adds them.
-/

namespace RichDoc
namespace Document

mutual
/-- The nodes of a document in order. -/
def nodes : Document → List Document
  | ⟨ty, as, cs, t, ms⟩ => ⟨ty, as, cs, t, ms⟩ :: nodesBelow cs

/-- The nodes of several documents. -/
def nodesBelow : List Document → List Document
  | [] => []
  | d :: r => nodes d ++ nodesBelow r
end

mutual
/-- Induction from the content to the node. -/
@[elab_as_elim]
theorem induct {P : Document → Prop} (step : ∀ d, (∀ e ∈ d.content, P e) → P d) : ∀ d, P d
  | ⟨ty, as, cs, t, ms⟩ => step ⟨ty, as, cs, t, ms⟩ (inductBelow step cs)

theorem inductBelow {P : Document → Prop} (step : ∀ d, (∀ e ∈ d.content, P e) → P d) :
    ∀ (ds : List Document), ∀ d ∈ ds, P d
  | [] => by simp
  | d :: r => List.forall_mem_cons.2 ⟨induct step d, inductBelow step r⟩
end

theorem nodesBelow_eq (ds : List Document) : nodesBelow ds = ds.flatMap nodes := by
  induction ds with
  | nil => rfl
  | cons d r ih => simp [nodesBelow, ih]

theorem nodes_eq (d : Document) : d.nodes = d :: d.content.flatMap nodes := by
  obtain ⟨ty, as, cs, t, ms⟩ := d
  simp [nodes, nodesBelow_eq]

theorem mem_nodes {d e : Document} : e ∈ d.nodes ↔ e = d ∨ ∃ x ∈ d.content, e ∈ x.nodes := by
  simp [nodes_eq d]

theorem self_mem_nodes (d : Document) : d ∈ d.nodes := mem_nodes.2 (.inl rfl)

theorem forall_nodes {P : Document → Prop} {d : Document} :
    (∀ e ∈ d.nodes, P e) ↔ P d ∧ ∀ x ∈ d.content, ∀ e ∈ x.nodes, P e := by
  constructor
  · intro h
    exact ⟨h d (self_mem_nodes d), fun x hx e he => h e (mem_nodes.2 (.inr ⟨x, hx, he⟩))⟩
  · rintro ⟨hd, hx⟩ e he
    rcases mem_nodes.1 he with rfl | ⟨x, hxd, hxe⟩
    · exact hd
    · exact hx x hxd e hxe

theorem mem_nodes_of_mem_content {d e f : Document} (he : e ∈ d.nodes) (hf : f ∈ e.content) : f ∈ d.nodes := by
  induction d using induct with
  | step d ih =>
    rcases mem_nodes.1 he with rfl | ⟨x, hx, hex⟩
    · exact mem_nodes.2 (.inr ⟨f, hf, self_mem_nodes f⟩)
    · exact mem_nodes.2 (.inr ⟨x, hx, ih x hx hex⟩)

-- `Document` is recursive, so this does not hold by definition
@[simp] theorem eta (d : Document) : (⟨d.type, d.attrs, d.content, d.text, d.marks⟩ : Document) = d := by
  cases d
  rfl

/-- The node without its own marks. -/
def bare (d : Document) : Document := { d with marks := [] }

@[simp] theorem type_bare (d : Document) : d.bare.type = d.type := rfl
@[simp] theorem attrs_bare (d : Document) : d.bare.attrs = d.attrs := rfl
@[simp] theorem content_bare (d : Document) : d.bare.content = d.content := rfl
@[simp] theorem text_bare (d : Document) : d.bare.text = d.text := rfl
@[simp] theorem marks_bare (d : Document) : d.bare.marks = [] := rfl

theorem bare_eq {d : Document} (h : d.marks = []) : d.bare = d := by
  rw [bare, ← h, eta]

theorem textContent_eq (d : Document) : d.textContent = d.text.getD (textContents d.content) := by
  obtain ⟨ty, as, cs, _ | t, ms⟩ := d <;> rfl

@[simp] theorem textContent_bare (d : Document) : d.bare.textContent = d.textContent := by
  rw [textContent_eq, textContent_eq, text_bare, content_bare]

mutual
/-- Whether two documents are the same. -/
def beq : Document → Document → Bool
  | ⟨ty, as, cs, t, ms⟩, ⟨ty', as', cs', t', ms'⟩ =>
    ty == ty' && as == as' && beqBelow cs cs' && t == t' && ms == ms'

/-- Whether two lists of documents are the same. -/
def beqBelow : List Document → List Document → Bool
  | [], [] => true
  | d :: r, d' :: r' => beq d d' && beqBelow r r'
  | _, _ => false
end

mutual
theorem beq_iff : (d e : Document) → beq d e = true ↔ d = e
  | ⟨ty, as, cs, t, ms⟩, ⟨ty', as', cs', t', ms'⟩ => by simp [beq, beqBelow_iff cs cs', and_assoc]

theorem beqBelow_iff : (ds es : List Document) → beqBelow ds es = true ↔ ds = es
  | [], es => by cases es <;> simp [beqBelow]
  | d :: r, es => by cases es <;> simp [beqBelow, beq_iff d, beqBelow_iff r]
end

instance : DecidableEq Document := fun d e => decidable_of_iff _ (beq_iff d e)

end Document
end RichDoc
