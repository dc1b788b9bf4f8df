/-! # Spans

A span is a range of byte offsets `[start, stop)`. Spans taken from a text are in order
(`Span.make`), but a span that was read from data need not be. `within` is containment with equal
ends allowed; `cover` is the least span that holds two given ones (`within_cover_left`,
`cover_within`). -/

namespace RichDoc

/-- A range of byte offsets. -/
structure Span where
  start : Nat
  stop : Nat
deriving DecidableEq, Repr, Inhabited

namespace Span
variable {a b c : Span}

/-- The span between two offsets given in any order. -/
def make (i j : Nat) : Span := if i ≤ j then ⟨i, j⟩ else ⟨j, i⟩

/-- Number of bytes; none if the ends are reversed. -/
def length (a : Span) : Nat := a.stop - a.start

/-- No byte lies in the span. -/
def isEmpty (a : Span) : Bool := a.length == 0

/-- `a` lies inside `b`. -/
def within (a b : Span) : Bool := b.start ≤ a.start && a.stop ≤ b.stop

/-- One span ends where the other starts. -/
def adjacent (a b : Span) : Bool := a.stop == b.start || b.stop == a.start

/-- The spans share a byte. -/
def overlaps (a b : Span) : Bool := a.start < b.stop && b.start < a.stop

/-- The least span that holds both. -/
def cover (a b : Span) : Span := ⟨min a.start b.start, max a.stop b.stop⟩

/-- By start, then by stop. -/
def compare (a b : Span) : Ordering := (Ord.compare a.start b.start).then (Ord.compare a.stop b.stop)

theorem make_ordered (i j : Nat) : (make i j).start ≤ (make i j).stop := by
  unfold make; split <;> simp <;> omega

@[simp] theorem within_iff : a.within b = true ↔ b.start ≤ a.start ∧ a.stop ≤ b.stop := by
  simp [within]

theorem within_refl (a : Span) : a.within a = true := by simp

theorem within_trans (h : a.within b = true) (h' : b.within c = true) : a.within c = true := by
  simp only [within_iff] at *; omega

theorem within_cover_left (a b : Span) : a.within (a.cover b) = true := by
  simp only [within_iff, cover]; omega

theorem within_cover_right (a b : Span) : b.within (a.cover b) = true := by
  simp only [within_iff, cover]; omega

theorem cover_within (h : a.within c = true) (h' : b.within c = true) : (a.cover b).within c = true := by
  simp only [within_iff, cover] at *; omega

end Span
end RichDoc
