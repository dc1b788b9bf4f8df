/-! # Words

Counts and sums are 64-bit words. A sum that is no word ends the run. -/

namespace RichDoc

/-- What ends a run: a sum that is no word. -/
inductive Overflow where
  | add
deriving DecidableEq, Repr

def Overflow.message : Overflow → String
  | add => "attempt to add with overflow"

/-- The sum of two numbers as a word. -/
def wordSum (m n : Nat) : Except Overflow UInt64 :=
  if m + n < UInt64.size then .ok (.ofNat (m + n)) else .error .add

theorem wordSum_eq_ok {m n : Nat} {w : UInt64} : wordSum m n = .ok w ↔ w.toNat = m + n := by
  unfold wordSum
  split
  · next hlt => rw [Except.ok.injEq, ← UInt64.toNat_inj, UInt64.toNat_ofNat_of_lt' hlt, eq_comm]
  · next hlt => exact iff_of_false (by simp) fun h => hlt (h ▸ w.toNat_lt_size)

theorem wordSum_eq_error {m n : Nat} : wordSum m n = .error .add ↔ UInt64.size ≤ m + n := by
  unfold wordSum
  split
  · next hlt => exact iff_of_false (by simp) (by omega)
  · next hlt => exact iff_of_true rfl (by omega)

end RichDoc
