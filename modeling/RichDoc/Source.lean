import RichDoc.Span

/-! # Source text by bytes

A `Source` is a text with its UTF-8 bytes, cut at `size`. Offsets count bytes. `slice?` gives the
text between two offsets that lie between characters; `trimmedStop` is where a span ends when the
line endings at its end are left out. -/

namespace RichDoc

/-- A text by its bytes, of which the first `size` count. -/
structure Source where
  bytes : ByteArray
  size : Nat

namespace Source

def ofString (s : String) : Source := ⟨s.toUTF8, s.utf8ByteSize⟩

/-- The byte at `i`. -/
def byte? (s : Source) (i : Nat) : Option UInt8 := if i < s.size then s.bytes[i]? else none

/-- The source cut at `i`. -/
def upTo (s : Source) (i : Nat) : Source := { s with size := min i s.size }

/-- The byte at `i` is `b`. -/
def hasByte (s : Source) (i : Nat) (b : UInt8) : Bool := s.byte? i == some b

/-- The byte at `i` satisfies `p`. -/
def satisfies (s : Source) (i : Nat) (p : UInt8 → Bool) : Bool :=
  match s.byte? i with
  | some b => p b
  | none => false

/-- The offset lies between two characters. -/
def isBoundary (s : Source) (i : Nat) : Bool :=
  i == s.size || s.satisfies i fun b => b.toNat / 64 != 2

/-- The text between two offsets, if there is one. -/
def slice? (s : Source) (a : Span) : Option String :=
  if a.start ≤ a.stop && a.stop ≤ s.size && s.isBoundary a.start && s.isBoundary a.stop then
    String.fromUTF8? (s.bytes.extract a.start a.stop)
  else none

/-- The text between two offsets, empty if there is none. -/
def slice (s : Source) (i j : Nat) : String := (s.slice? ⟨i, j⟩).getD ""

/-- The first offset from `i` on whose byte fails `p`. -/
def skipWhile (s : Source) (p : UInt8 → Bool) (i : Nat) : Nat :=
  if i < s.size then if s.satisfies i p then s.skipWhile p (i + 1) else i else i
termination_by s.size - i

/-- The least offset `k ≥ lo` such that the bytes from `k` to `i` satisfy `p`. -/
def skipBack (s : Source) (p : UInt8 → Bool) (lo : Nat) : Nat → Nat
  | 0 => 0
  | i + 1 => if lo ≤ i && s.satisfies i p then s.skipBack p lo i else i + 1

/-- A carriage return or a line feed. -/
def isLineEnd (b : UInt8) : Bool := b == 10 || b == 13

/-- The end of a span without the line endings before it; a span that is none of the text is taken
as empty. -/
def trimmedStop (s : Source) (a : Span) : Nat :=
  if a.start ≤ a.stop && a.stop ≤ s.size && s.isBoundary a.start && s.isBoundary a.stop then
    s.skipBack isLineEnd a.start a.stop
  else a.start

theorem skipBack_le (s : Source) (p : UInt8 → Bool) (lo i : Nat) : s.skipBack p lo i ≤ i := by
  induction i with
  | zero => simp [skipBack]
  | succ i ih => unfold skipBack; split <;> omega

theorem le_skipBack (s : Source) (p : UInt8 → Bool) {lo i : Nat} (h : lo ≤ i) :
    lo ≤ s.skipBack p lo i := by
  induction i with
  | zero => simpa [skipBack] using h
  | succ i ih =>
    unfold skipBack
    split
    · next hp => exact ih (by simp at hp; exact hp.1)
    · exact h

theorem le_trimmedStop (s : Source) (a : Span) : a.start ≤ s.trimmedStop a := by
  unfold trimmedStop
  split
  · next h => exact s.le_skipBack _ (by simp at h; exact h.1.1.1)
  · exact Nat.le_refl _

end Source
end RichDoc
