import Mathlib.Data.Nat.Digits.Defs
import RichDoc.Content.Read
import RichDoc.Proofs.Results

/-!
# Words and signs

`ContentToken.Spells cs ts`: the words and signs of the text `cs` are `ts`. A word goes on as long as it can, and white
space is free. Scanning finds the words and signs of a text, and fails where it has none (`scan_eq_ok_iff`). A word is
a number if it consists of digits and its value fits 64 bits (`number?_eq_some_iff`).
-/

namespace RichDoc.ContentToken
variable {α : Text.Alphabet} {c : Char} {w r cs : List Char} {t : ContentToken} {ts : List ContentToken} {n : UInt64}

/-! ### Kinds of characters -/

theorem isWordChar_of_isBlank (h : Text.isBlank c) : isWordChar α c = false := by
  have hunderscore : c ≠ '_' := by
    rintro rfl
    exact absurd h (by decide)
  simp [isWordChar, α.has_blank c h, hunderscore]

theorem mem_of_isSign (h : isSign c) : c ∈ ['(', ')', '|', '*', '+', '?', '\x7b', '\x7d', ','] := by
  simpa [isSign] using h

theorem isWordChar_of_isSign (h : isSign c) : isWordChar α c = false := by
  have hall : ['(', ')', '|', '*', '+', '?', '\x7b', '\x7d', ','].all fun d =>
      d.toNat < 0x80 && !(d.isAlphanum || d == '_') := by decide
  have hc := List.all_eq_true.1 hall c (mem_of_isSign h)
  rw [Bool.and_eq_true, decide_eq_true_iff, Bool.not_eq_true'] at hc
  rw [isWordChar, α.has_ascii c hc.1]
  exact hc.2

theorem isBlank_of_isSign (h : isSign c) : Text.isBlank c = false := by
  have hall : ['(', ')', '|', '*', '+', '?', '\x7b', '\x7d', ','].all (!Text.isBlank ·) := by decide
  simpa using List.all_eq_true.1 hall c (mem_of_isSign h)

/-! ### Texts -/

/-- The text has these words and signs. -/
inductive Spells (α : Text.Alphabet) : List Char → List ContentToken → Prop where
  | done : Spells α [] []
  | blank {c : Char} {r : List Char} {ts : List ContentToken} (hc : Text.isBlank c) (h : Spells α r ts) :
    Spells α (c :: r) ts
  | symbol {c : Char} {r : List Char} {ts : List ContentToken} (hc : isSign c) (h : Spells α r ts) :
    Spells α (c :: r) (sign c :: ts)
  | letters {w r : List Char} {ts : List ContentToken} (hne : w ≠ []) (hw : ∀ c ∈ w, isWordChar α c)
    (hr : ∀ c ∈ r.head?, isWordChar α c = false) (h : Spells α r ts) : Spells α (w ++ r) (word (String.ofList w) :: ts)

theorem takeWhile_word (hw : ∀ c ∈ w, isWordChar α c) (hr : ∀ c ∈ r.head?, isWordChar α c = false) :
    (w ++ r).takeWhile (isWordChar α) = w := by
  rw [List.takeWhile_append_of_pos hw]
  cases r with
  | nil => simp
  | cons c r => simp [hr c rfl]

/-- A text that does not begin with a word begins with white space or a sign. -/
theorem Spells.cases_cons (h : Spells α (c :: r) ts) (hc : isWordChar α c = false) :
    (Text.isBlank c ∧ Spells α r ts) ∨ (isSign c ∧ ∃ us, ts = sign c :: us ∧ Spells α r us) := by
  generalize hcs : c :: r = cs at h
  cases h with
  | done => cases hcs
  | blank hblank h =>
    cases hcs
    exact .inl ⟨hblank, h⟩
  | symbol hsign h =>
    cases hcs
    exact .inr ⟨hsign, _, rfl, h⟩
  | letters hne hw hr h =>
    obtain ⟨d, w, rfl⟩ := List.exists_cons_of_ne_nil hne
    cases hcs
    simp [hw c List.mem_cons_self] at hc

theorem spells_nil_iff : Spells α [] ts ↔ ts = [] := by
  constructor
  · intro h
    generalize hcs : [] = cs at h
    cases h with
    | done => rfl
    | blank => cases hcs
    | symbol => cases hcs
    | letters hne => exact absurd (List.append_eq_nil_iff.1 hcs.symm).1 hne
  · rintro rfl
    exact .done

theorem spells_blank_iff (hc : Text.isBlank c) : Spells α (c :: r) ts ↔ Spells α r ts := by
  refine ⟨fun h => ?_, .blank hc⟩
  rcases h.cases_cons (isWordChar_of_isBlank hc) with ⟨-, h⟩ | ⟨hsign, -⟩
  · exact h
  · simp [isBlank_of_isSign hsign] at hc

theorem spells_sign_iff (hc : isSign c) : Spells α (c :: r) ts ↔ ∃ us, Spells α r us ∧ sign c :: us = ts := by
  constructor
  · intro h
    rcases h.cases_cons (isWordChar_of_isSign hc) with ⟨hblank, -⟩ | ⟨-, us, rfl, hr⟩
    · simp [isBlank_of_isSign hc] at hblank
    · exact ⟨us, hr, rfl⟩
  · rintro ⟨us, h, rfl⟩
    exact .symbol hc h

/-- A stretch of word characters that cannot go on is a word. -/
theorem spells_word_iff (hne : w ≠ []) (hw : ∀ c ∈ w, isWordChar α c) (hr : ∀ c ∈ r.head?, isWordChar α c = false) :
    Spells α (w ++ r) ts ↔ ∃ us, Spells α r us ∧ word (String.ofList w) :: us = ts := by
  constructor
  · intro h
    obtain ⟨d, v, rfl⟩ := List.exists_cons_of_ne_nil hne
    have hd := hw d List.mem_cons_self
    generalize hcs : d :: v ++ r = cs at h
    cases h with
    | done => cases hcs
    | blank hc =>
      cases hcs
      simp [isWordChar_of_isBlank hc] at hd
    | symbol hc =>
      cases hcs
      simp [isWordChar_of_isSign hc] at hd
    | @letters w' s us _ hw' hs h =>
      obtain rfl : d :: v = w' := by rw [← takeWhile_word hw hr, hcs, takeWhile_word hw' hs]
      obtain rfl := List.append_cancel_left hcs
      exact ⟨us, h, rfl⟩
  · rintro ⟨us, h, rfl⟩
    exact .letters hne hw hr h

/-- The word in front may be empty. -/
theorem spells_append_iff (hw : ∀ c ∈ w, isWordChar α c) (hr : ∀ c ∈ r.head?, isWordChar α c = false) :
    Spells α (w.reverse ++ r) ts ↔ ∃ us, Spells α r us ∧ scan.close w us = ts := by
  by_cases hne : w = []
  · simp [hne, scan.close]
  · have hclose (us : List ContentToken) : scan.close w us = word (String.ofList w.reverse) :: us := by
      simp [scan.close, hne]
    simp only [hclose]
    exact spells_word_iff (by simpa using hne) (fun c hc => hw c (List.mem_reverse.1 hc)) hr

/-! ### Scanning -/

/-- Inside a word the text still to be scanned goes on with it. -/
theorem scan_eq_ok (hw : ∀ c ∈ w, isWordChar α c) : scan α w cs = .ok ts ↔ Spells α (w.reverse ++ cs) ts := by
  induction cs generalizing w ts with
  | nil =>
    rw [scan, spells_append_iff hw (by simp)]
    simp [spells_nil_iff]
  | cons c r ih =>
    by_cases hc : isWordChar α c
    · have hblank : ¬ Text.isBlank c := fun h => by simp [isWordChar_of_isBlank h] at hc
      have hsign : ¬ isSign c := fun h => by simp [isWordChar_of_isSign h] at hc
      rw [scan, if_neg hblank, if_neg hsign, if_pos hc, ih (List.forall_mem_cons.2 ⟨hc, hw⟩)]
      simp
    rw [scan, if_neg hc, spells_append_iff hw (by simpa using hc)]
    have hc : isWordChar α c = false := by simpa using hc
    by_cases hblank : Text.isBlank c
    · rw [if_pos hblank, map_eq_ok]
      simp only [ih (w := []) (by simp), spells_blank_iff hblank, List.reverse_nil, List.nil_append]
    by_cases hsign : isSign c
    · rw [if_neg hblank, if_pos hsign, map_eq_ok]
      simp only [ih (w := []) (by simp), spells_sign_iff hsign, List.reverse_nil, List.nil_append]
      constructor
      · rintro ⟨us, h, rfl⟩
        exact ⟨_, ⟨us, h, rfl⟩, rfl⟩
      · rintro ⟨-, ⟨us, h, rfl⟩, rfl⟩
        exact ⟨us, h, rfl⟩
    · rw [if_neg hblank, if_neg hsign]
      simp only [reduceCtorEq, false_iff]
      rintro ⟨us, h, -⟩
      rcases h.cases_cons hc with ⟨h, -⟩ | ⟨h, -⟩
      exacts [hblank h, hsign h]

/-- Scanning gives the words and signs of a text. -/
theorem scan_eq_ok_iff : scan α [] cs = .ok ts ↔ Spells α cs ts := scan_eq_ok (by simp)

/-! ### Numbers -/

/-- A word of digits that writes a number below 2 ^ 64. -/
def Numeral (t : ContentToken) (n : UInt64) : Prop :=
  ∃ w, t = word w ∧ (∀ c ∈ w.toList, c.isDigit) ∧
    n.toNat = Nat.ofDigits 10 (w.toList.reverse.map fun c => c.toNat - '0'.toNat)

/-- Reading digits from the front gives the number that they write. -/
theorem foldl_digits (cs : List Char) :
    cs.foldl (fun n c => 10 * n + (c.toNat - '0'.toNat)) 0 =
      Nat.ofDigits 10 (cs.reverse.map fun c => c.toNat - '0'.toNat) := by
  obtain ⟨r, rfl⟩ : ∃ r, cs = r.reverse := ⟨cs.reverse, by simp⟩
  induction r with
  | nil => rfl
  | cons c r ih =>
    rw [List.reverse_cons, List.foldl_append, ih]
    simp [Nat.ofDigits_cons, Nat.add_comm]

theorem number?_eq_some_iff : t.number? = some n ↔ Numeral t n := by
  cases t with
  | sign c => simp [number?, Numeral]
  | word w =>
    simp only [number?, foldl_digits, Numeral, word.injEq, exists_eq_left', ← List.all_eq_true]
    by_cases hdigits : w.toList.all Char.isDigit
    · rw [if_pos hdigits]
      by_cases hlt : Nat.ofDigits 10 (w.toList.reverse.map fun c => c.toNat - '0'.toNat) < UInt64.size
      · rw [if_pos hlt, Option.some.injEq, and_iff_right hdigits, ← UInt64.toNat_inj,
          UInt64.toNat_ofNat_of_lt' hlt, eq_comm]
      · rw [if_neg hlt]
        simp only [reduceCtorEq, false_iff]
        rintro ⟨-, h⟩
        exact hlt (h ▸ n.toNat_lt)
    · simp [hdigits]

end RichDoc.ContentToken
