import Mathlib.Computability.Language
import RichDoc.Content.Basic

/-!
# The language of a content expression

`Content.language` gives an expression its meaning: the lists of child types that it describes. `Spells types l p q`: a
word of the language stands between two places of a list. Words go forward, so among more words than there are places
ahead one is empty, and can be left out (`Spells.shorten`).
-/

namespace RichDoc.Content

mutual
/-- The lists of child types that an expression describes. -/
def language (isA : String → String → Bool) : Content → Language String
  | name n => {w | ∃ t, isA t n = true ∧ w = [t]}
  | seq cs => languageInOrder isA cs
  | choice cs => languageOfAny isA cs
  | repeated c least most =>
    {w | ∃ k, least.toNat ≤ k ∧ (∀ m ∈ most, k ≤ m.toNat) ∧ w ∈ language isA c ^ k}

/-- The lists that the expressions describe one after the other. -/
def languageInOrder (isA : String → String → Bool) : List Content → Language String
  | [] => 1
  | c :: r => language isA c * languageInOrder isA r

/-- The lists that one of the expressions describes. -/
def languageOfAny (isA : String → String → Bool) : List Content → Language String
  | [] => 0
  | c :: r => language isA c + languageOfAny isA r
end

variable {isA : String → String → Bool} {n : String} {w : List String}

theorem mem_language_name : w ∈ language isA (name n) ↔ ∃ t, isA t n = true ∧ w = [t] := Iff.rfl

theorem mem_language_repeated {c : Content} {least : UInt64} {most : Option UInt64} :
    w ∈ language isA (repeated c least most) ↔
      ∃ k, least.toNat ≤ k ∧ (∀ m ∈ most, k ≤ m.toNat) ∧ w ∈ language isA c ^ k :=
  Iff.rfl

/-- From place `p` to place `q` of a list stands a word of the language. -/
def Spells (types : List String) (l : Language String) (p q : Nat) : Prop :=
  ∃ w ∈ l, w <+: types.drop p ∧ q = p + w.length

namespace Spells
variable {types : List String} {l m : Language String} {p q k : Nat}

theorem one : Spells types 1 p q ↔ q = p := by
  simp [Spells, Language.mem_one]

theorem mul : Spells types (l * m) p q ↔ ∃ r, Spells types l p r ∧ Spells types m r q := by
  constructor
  · rintro ⟨w, hw, ⟨s, hs⟩, rfl⟩
    obtain ⟨u, hu, v, hv, rfl⟩ := Language.mem_mul.1 hw
    rw [List.append_assoc] at hs
    have hdrop : types.drop (p + u.length) = v ++ s := by rw [← List.drop_drop, ← hs, List.drop_left]
    exact ⟨p + u.length, ⟨u, hu, ⟨v ++ s, hs⟩, rfl⟩, v, hv, hdrop ▸ List.prefix_append v s, by
      rw [List.length_append, Nat.add_assoc]⟩
  · rintro ⟨r, ⟨u, hu, ⟨s, hs⟩, rfl⟩, v, hv, ⟨s', hs'⟩, rfl⟩
    have hrest : v ++ s' = s := by rw [hs', ← List.drop_drop, ← hs, List.drop_left]
    refine ⟨u ++ v, Language.append_mem_mul hu hv, ⟨s', ?_⟩, by rw [List.length_append, Nat.add_assoc]⟩
    rw [List.append_assoc, hrest, hs]

theorem add : Spells types (l + m) p q ↔ Spells types l p q ∨ Spells types m p q := by
  simp only [Spells, Language.mem_add, or_and_right, exists_or]

theorem pow_last : Spells types (l ^ (k + 1)) p q ↔ ∃ r, Spells types (l ^ k) p r ∧ Spells types l r q := by
  rw [pow_succ, mul]

theorem pow_first : Spells types (l ^ (k + 1)) p q ↔ ∃ r, Spells types l p r ∧ Spells types (l ^ k) r q := by
  rw [pow_succ', mul]

theorem le (h : Spells types l p q) : p ≤ q ∧ (q = p ∨ q ≤ types.length) := by
  obtain ⟨w, -, hw, rfl⟩ := h
  have := hw.length_le
  rw [List.length_drop] at this
  omega

/-- Of more words than there are places ahead one is empty. -/
theorem shorten (hk : types.length < p + (k + 1)) (h : Spells types (l ^ (k + 1)) p q) : Spells types (l ^ k) p q := by
  induction k generalizing p with
  | zero =>
    obtain ⟨r, hr, hq⟩ := pow_first.1 h
    obtain ⟨hle, hstill | hin⟩ := hr.le
    · exact hstill ▸ hq
    · obtain rfl : r = p := by omega
      exact hq
  | succ k ih =>
    obtain ⟨r, hr, hq⟩ := pow_first.1 h
    by_cases hstill : r = p
    · exact hstill ▸ hq
    · obtain ⟨hle, -⟩ := hr.le
      exact pow_first.2 ⟨r, hr, ih (by omega) hq⟩

/-- Where no number of words leads, no more of them do. -/
theorem of_le {j : Nat} (hjk : j ≤ k) (h : Spells types (l ^ k) p q) : ∃ r, Spells types (l ^ j) p r := by
  induction k generalizing q with
  | zero =>
    obtain rfl := Nat.le_zero.1 hjk
    exact ⟨q, h⟩
  | succ k ih =>
    rcases Nat.lt_or_eq_of_le hjk with hlt | rfl
    · obtain ⟨r, hr, -⟩ := pow_last.1 h
      exact ih (Nat.le_of_lt_succ hlt) hr
    · exact ⟨q, h⟩

theorem whole : Spells types l 0 types.length ↔ types ∈ l := by
  constructor
  · rintro ⟨w, hw, hpre, hlen⟩
    rw [List.drop_zero] at hpre
    rwa [← hpre.eq_of_length (by omega)]
  · exact fun h => ⟨types, h, by simp, by simp⟩

end Spells

theorem mem_language_name_pow {k : Nat} :
    w ∈ language isA (name n) ^ k ↔ w.length = k ∧ ∀ t ∈ w, isA t n = true := by
  induction k generalizing w with
  | zero =>
    rw [pow_zero, Language.mem_one]
    constructor
    · rintro rfl
      simp
    · exact fun h => List.length_eq_zero_iff.1 h.1
  | succ k ih =>
    rw [pow_succ', Language.mem_mul]
    constructor
    · rintro ⟨-, ⟨t, ht, rfl⟩, v, hv, rfl⟩
      obtain ⟨hlen, hall⟩ := ih.1 hv
      exact ⟨by simp [hlen], List.forall_mem_cons.2 ⟨ht, hall⟩⟩
    · rintro ⟨hlen, hall⟩
      obtain ⟨t, v, rfl⟩ := List.exists_cons_of_length_eq_add_one hlen
      obtain ⟨ht, hall⟩ := List.forall_mem_cons.1 hall
      exact ⟨[t], ⟨t, ht, rfl⟩, v, ih.2 ⟨by simpa using hlen, hall⟩, rfl⟩

end RichDoc.Content
