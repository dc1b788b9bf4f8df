import RichDoc.Composition

/-! # From documents to trees

`Composition.up` converts a document from its leaves up. Marks become nodes around runs of siblings: of the marks
that a node carries and that are not open yet, the one that reaches farthest is opened first, and of those that
reach equally far the first (`Document.farthest`). -/

namespace RichDoc
namespace Document

mutual
/-- The number of nodes and marks in a document. -/
def weight : Document → Nat
  | ⟨_, _, cs, _, ms⟩ => 1 + ms.length + weights cs

/-- The number of nodes and marks in a list of documents. -/
def weights : List Document → Nat
  | [] => 0
  | d :: r => weight d + weights r
end

/-- The marks of a node that are not open. -/
def pending (applied : List Mark) (d : Document) : List Mark := d.marks.filter (!applied.contains ·)

/-- The number of nodes and marks in a list of documents, without the open marks of the list itself. -/
def pendingWeight (applied : List Mark) : List Document → Nat
  | [] => 0
  | d :: r => 1 + (d.pending applied).length + weights d.content + pendingWeight applied r

/-- How many of the documents carry `m` before the first that does not. -/
def reach (m : Mark) (ds : List Document) : Nat := (ds.takeWhile (·.marks.contains m)).length

/-- The first of the marks that reach farthest into `ds`. -/
def farthest (ds : List Document) : List Mark → Option Mark
  | [] => none
  | m :: r =>
    match farthest ds r with
    | none => some m
    | some n => some (if reach m ds < reach n ds then n else m)

theorem farthest_mem {ds : List Document} {ms : List Mark} {m : Mark} (h : farthest ds ms = some m) :
    m ∈ ms := by
  induction ms generalizing m with
  | nil => simp [farthest] at h
  | cons n r ih =>
    unfold farthest at h
    split at h
    · simp_all
    · next k hk =>
      have := ih hk
      split at h <;> simp_all

theorem weight_eq (d : Document) : d.weight = 1 + d.marks.length + weights d.content := by
  cases d; simp [weight]

theorem pendingWeight_nil (ds : List Document) : pendingWeight [] ds = weights ds := by
  induction ds with
  | nil => rfl
  | cons d r ih => simp [pendingWeight, weights, ih, weight_eq, pending]

theorem pendingWeight_append (applied : List Mark) (ds es : List Document) :
    pendingWeight applied (ds ++ es) = pendingWeight applied ds + pendingWeight applied es := by
  induction ds with
  | nil => simp [pendingWeight]
  | cons d r ih => simp [pendingWeight, ih]; omega

theorem pending_cons (applied : List Mark) (m : Mark) (d : Document) :
    d.pending (m :: applied) = (d.pending applied).filter (· ≠ m) := by
  simp only [pending, List.filter_filter]
  exact List.filter_congr fun n _ => by simp

theorem pendingWeight_cons_le (applied : List Mark) (m : Mark) (ds : List Document) :
    pendingWeight (m :: applied) ds ≤ pendingWeight applied ds := by
  induction ds with
  | nil => simp [pendingWeight]
  | cons d r ih =>
    have := List.length_filter_le (· ≠ m) (d.pending applied)
    simp only [pendingWeight, pending_cons]
    omega

theorem pendingWeight_cons_lt {applied : List Mark} {m : Mark} {d : Document} (h : m ∈ d.pending applied)
    (r : List Document) : pendingWeight (m :: applied) (d :: r) < pendingWeight applied (d :: r) := by
  have h₁ := pendingWeight_cons_le applied m r
  have h₂ : ((d.pending applied).filter (· ≠ m)).length < (d.pending applied).length :=
    List.length_filter_lt_length_iff_exists.2 ⟨m, h, by simp⟩
  simp only [pendingWeight, pending_cons]
  omega

end Document

namespace Composition
open Document
variable (c : Composition)

/-- Converts a document with its content converted already. -/
def upNode (d : Document) (content : List Node) : Conversion (List Node) :=
  match c.ofType? d.type with
  | some e => e.toTree c.grammar d content
  | none => .fail (.unknownType d.type .up)

/-- Puts converted siblings under a mark. -/
def upMark (m : Mark) (inner : List Node) : Conversion (List Node) :=
  match c.ofType? m.type with
  | some e => e.wrap c.grammar m inner
  | none => .fail (.unknownType m.type .up)

/-- Converts siblings under the marks `applied`, which are open around them. -/
def upList (applied : List Mark) (ds : List Document) : Conversion (List Node) :=
  match ds with
  | [] => pure []
  | d :: r =>
    match _hm : farthest r (d.pending applied) with
    | none => do
      let content ← upList [] d.content
      let ns ← c.upNode d content
      return ns ++ (← upList applied r)
    | some m => do
      let inner ← upList (m :: applied) (d :: r.takeWhile (·.marks.contains m))
      let ns ← c.upMark m inner
      return ns ++ (← upList applied (r.dropWhile (·.marks.contains m)))
termination_by pendingWeight applied ds
decreasing_by
  · simp only [pendingWeight, pendingWeight_nil]; omega
  · simp only [pendingWeight]; omega
  · have h₁ := pendingWeight_cons_lt (farthest_mem _hm) (r.takeWhile (·.marks.contains m))
    have h₂ := pendingWeight_append applied (r.takeWhile (·.marks.contains m))
      (r.dropWhile (·.marks.contains m))
    rw [List.takeWhile_append_dropWhile] at h₂
    simp only [pendingWeight] at h₁ ⊢
    omega
  · have h₂ := pendingWeight_append applied (r.takeWhile (·.marks.contains m))
      (r.dropWhile (·.marks.contains m))
    rw [List.takeWhile_append_dropWhile] at h₂
    simp only [pendingWeight]
    omega

/-- Converts a document; its own marks are left to the list that it stands in. -/
def up (d : Document) : Conversion (List Node) := do c.upNode d (← c.upList [] d.content)

/-- The tree of a whole document. -/
def toTree (d : Document) : Conversion Node := do
  match ← c.up d with
  | [n] => if n.kind = .root then pure n else .fail (.rootMismatch "root" 1)
  | ns => .fail (.rootMismatch "root" ns.length)

end Composition
end RichDoc
