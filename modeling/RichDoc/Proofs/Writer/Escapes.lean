import Mathlib.Algebra.Ring.Parity
import Mathlib.Data.List.Induction
import RichDoc.Text.Class
import RichDoc.Writer.Inline

/-!
# Reading escaped text

`unescape` takes the backslashes before ASCII punctuation out of a text; the character behind one is literal, also
if it is a backslash. What `escape` writes is read back, and its characters stand in the same order as those of the
text, with an odd run of backslashes before exactly those that would mean something (`unescape_escape`). The run is a
backslash of the character's own and two for each backslash that stands before it in the text
(`even_backslashes_escapeFrom`).
-/

namespace RichDoc.Writer
open Text

variable {c x : Char} {lineStart : Bool} {p a b t : List Char}

/-! ### The reader -/

/-- A character, and whether a backslash makes it literal. -/
abbrev Letter := Char × Bool

/-- The characters of a text; a backslash before ASCII punctuation is none of them. -/
def letters : List Char → List Letter
  | '\\' :: c :: r => if isAsciiPunct c then (c, true) :: letters r else ('\\', false) :: letters (c :: r)
  | c :: r => (c, false) :: letters r
  | [] => []

def unescapeChars (s : List Char) : List Char := (letters s).map Prod.fst

/-- A text less each backslash before ASCII punctuation. -/
def unescape (s : String) : String := String.ofList (unescapeChars s.toList)

theorem letters_escaped (hc : isAsciiPunct c = true) (r : List Char) : letters ('\\' :: c :: r) = (c, true) :: letters r := by
  rw [letters, if_pos hc]

theorem letters_cons {r : List Char} (h : c = '\\' → ∀ d, r.head? = some d → isAsciiPunct d = false) :
    letters (c :: r) = (c, false) :: letters r := by
  cases r with
  | nil => simp [letters]
  | cons d r =>
    by_cases hc : c = '\\'
    · subst hc
      rw [letters, if_neg (by simp [h rfl d rfl])]
    · rw [letters]
      intro e s heq
      exact absurd heq hc

/-! ### What stands before a character -/

/-- Whether what follows the text `p` follows an `x`; if there is no text, `first` says so. -/
def isAfter (x : Char) (first : Bool) (p : List Char) : Bool := p.getLast?.elim first (· == x)

def backslashes (p : List Char) : Nat := (p.reverse.takeWhile (· = '\\')).length

theorem isAfter_nil (x : Char) (first : Bool) : isAfter x first [] = first := rfl

theorem isAfter_cons (x : Char) (first : Bool) (c : Char) (p : List Char) :
    isAfter x first (c :: p) = isAfter x (c == x) p := by
  unfold isAfter
  rw [List.getLast?_cons]
  cases p.getLast? <;> rfl

theorem isAfter_append (x : Char) (first : Bool) (p q : List Char) :
    isAfter x first (p ++ q) = isAfter x (isAfter x first p) q := by
  induction p generalizing first with
  | nil => rfl
  | cons c p ih => rw [List.cons_append, isAfter_cons, isAfter_cons, ih]

theorem isAfter_true : isAfter x true p = true ↔ p = [] ∨ p.getLast? = some x := by
  unfold isAfter
  cases h : p.getLast? with
  | none => simp_all
  | some c =>
    have hp : p ≠ [] := by
      rintro rfl
      simp at h
    simp [hp]

theorem backslashes_concat (p : List Char) (c : Char) :
    backslashes (p ++ [c]) = if c = '\\' then backslashes p + 1 else 0 := by
  rw [backslashes, List.reverse_append, List.reverse_singleton, List.singleton_append, List.takeWhile_cons]
  split <;> simp_all [backslashes]

/-! ### The writer -/

/-- A character that is written with a backslash of its own. -/
def isEscaped (lineStart : Bool) (c : Char) : Bool := (lineStart && isMarker c) || isSpecial c

theorem isEscaped_iff : isEscaped lineStart c = true ↔
    c = '\\' ∨ c ∈ "*_\x60[]<~|!".toList ∨ c ∈ "#>-+=".toList ∧ lineStart = true := by
  simp only [isEscaped, isMarker, isSpecial, Bool.or_eq_true, Bool.and_eq_true, List.contains_iff_mem]
  have hsplit : "\\*_\x60[]<~|!".toList = '\\' :: "*_\x60[]<~|!".toList := by decide
  rw [hsplit, List.mem_cons]
  tauto

def escapable : List Char := '\\' :: "*_\x60[]<~|!#>-+=".toList

theorem mem_escapable_of_isEscaped (h : isEscaped lineStart c = true) : c ∈ escapable := by
  rw [isEscaped_iff] at h
  simp [escapable] at h ⊢
  tauto

/-- A character as it is written: with a backslash, or alone. -/
def written (lineStart : Bool) (c : Char) : List Char := if isEscaped lineStart c then ['\\', c] else [c]

theorem escapeFrom_cons (lineStart : Bool) (c : Char) (r : List Char) :
    escapeFrom lineStart (c :: r) = written lineStart c ++ escapeFrom (c == '\n') r := by
  unfold written isEscaped
  rw [escapeFrom]
  split <;> rfl

theorem escapeFrom_append (lineStart : Bool) (p q : List Char) :
    escapeFrom lineStart (p ++ q) = escapeFrom lineStart p ++ escapeFrom (isAfter '\n' lineStart p) q := by
  induction p generalizing lineStart with
  | nil => rfl
  | cons c p ih => rw [List.cons_append, escapeFrom_cons, escapeFrom_cons, ih, isAfter_cons, List.append_assoc]

theorem unescapeChars_escapeFrom (lineStart : Bool) (t : List Char) : unescapeChars (escapeFrom lineStart t) = t := by
  induction t generalizing lineStart with
  | nil => rfl
  | cons c r ih =>
    rw [escapeFrom_cons, written]
    split
    · next h =>
      have hpunct : escapable.all isAsciiPunct = true := by decide
      show unescapeChars ('\\' :: c :: escapeFrom (c == '\n') r) = c :: r
      rw [unescapeChars, letters_escaped (List.all_eq_true.1 hpunct c (mem_escapable_of_isEscaped h)), List.map_cons]
      exact congrArg (c :: ·) (ih _)
    · next h =>
      have hc : c ≠ '\\' := by
        rintro rfl
        exact h (isEscaped_iff.2 (.inl rfl))
      rw [List.singleton_append, unescapeChars, letters_cons fun h => absurd h hc, List.map_cons]
      exact congrArg (c :: ·) (ih _)

/-- A written text ends with an even run of backslashes: two for each at the end of the text. -/
theorem even_backslashes_escapeFrom (lineStart : Bool) (p : List Char) : Even (backslashes (escapeFrom lineStart p)) := by
  induction p using List.reverseRecOn with
  | nil => exact Even.zero
  | append_singleton p c ih =>
    rw [escapeFrom_append, escapeFrom_cons, escapeFrom, List.append_nil, written]
    by_cases hc : c = '\\'
    · subst hc
      rw [if_pos (isEscaped_iff.2 (.inl rfl)), ← List.singleton_append, ← List.append_assoc, backslashes_concat,
        backslashes_concat, if_pos rfl, if_pos rfl, add_assoc]
      exact ih.add (by decide)
    · -- any other character ends the run
      have hlast : ∀ before, Even (backslashes (before ++ [c])) := by
        intro before
        rw [backslashes_concat, if_neg hc]
        exact Even.zero
      split
      · exact List.append_assoc _ ['\\'] [c] ▸ hlast _
      · exact hlast _

/-- What is written before a character that stands behind the text `p`. -/
def beforeWritten (p : List Char) (c : Char) : List Char :=
  escapeFrom true p ++ if isEscaped (isAfter '\n' true p) c then ['\\'] else []

theorem escapeFrom_at (p : List Char) (c : Char) (q : List Char) :
    escapeFrom true (p ++ c :: q) = beforeWritten p c ++ c :: escapeFrom (c == '\n') q := by
  rw [escapeFrom_append, escapeFrom_cons, beforeWritten, written]
  split <;> simp

theorem odd_backslashes_beforeWritten :
    Odd (backslashes (beforeWritten p c)) ↔ isEscaped (isAfter '\n' true p) c = true := by
  have heven := even_backslashes_escapeFrom true p
  unfold beforeWritten
  split
  · next h =>
    rw [backslashes_concat, if_pos rfl]
    exact iff_of_true heven.add_one h
  · next h =>
    rw [List.append_nil, ← Nat.not_even_iff_odd]
    exact iff_of_false (not_not_intro heven) h

/-- The characters of a written text are those of the text, but for the backslashes. -/
theorem exists_at_of_escapeFrom (hc : c ≠ '\\') (h : escapeFrom lineStart t = a ++ c :: b) :
    ∃ p q, t = p ++ c :: q ∧ b = escapeFrom (c == '\n') q ∧ a ++ [c] = escapeFrom lineStart (p ++ [c]) := by
  induction t generalizing lineStart a with
  | nil => simp [escapeFrom] at h
  | cons d r ih =>
    -- `c` is `d`, or stands further on
    have hgo (before a' : List Char) (hd : written lineStart d = before ++ [d])
        (h : d :: escapeFrom (d == '\n') r = a' ++ c :: b) :
        ∃ p q, d :: r = p ++ c :: q ∧ b = escapeFrom (c == '\n') q ∧
          before ++ a' ++ [c] = escapeFrom lineStart (p ++ [c]) := by
      rcases List.cons_eq_append_iff.1 h with ⟨rfl, hcb⟩ | ⟨a', rfl, hr⟩
      · obtain ⟨rfl, rfl⟩ := List.cons.inj hcb
        exact ⟨[], r, rfl, rfl, by simp [escapeFrom_cons, hd, escapeFrom]⟩
      · obtain ⟨p, q, rfl, hb, hp⟩ := ih hr
        refine ⟨d :: p, q, rfl, hb, ?_⟩
        rw [List.cons_append, escapeFrom_cons, hd, ← hp]
        simp
    rw [escapeFrom_cons] at h
    by_cases hd : isEscaped lineStart d = true
    · have hwritten : written lineStart d = ['\\', d] := if_pos hd
      rw [hwritten] at h
      rcases List.cons_eq_append_iff.1 h with ⟨rfl, hcb⟩ | ⟨a', rfl, hrest⟩
      · exact absurd (List.cons.inj hcb).1 hc
      · exact hgo ['\\'] a' hwritten hrest
    · have hwritten : written lineStart d = [d] := if_neg hd
      rw [hwritten] at h
      exact hgo [] a hwritten h

/-- What `escape` writes is read back, and its characters other than backslashes are those of the text. An odd run of
backslashes stands before those that would mean something, and before no other. -/
theorem unescape_escape (s : String) :
    unescape (escape s) = s ∧
    (∀ a c b, (escape s).toList = a ++ c :: b → c ≠ '\\' → ∃ p q, s.toList = p ++ c :: q ∧
      unescapeChars (a ++ [c]) = p ++ [c] ∧ unescapeChars b = q ∧
      (Odd (backslashes a) ↔
        c ∈ "*_\x60[]<~|!".toList ∨ c ∈ "#>-+=".toList ∧ (p = [] ∨ p.getLast? = some '\n'))) ∧
    ∀ p c q, s.toList = p ++ c :: q → c ≠ '\\' → ∃ a b, (escape s).toList = a ++ c :: b ∧
      unescapeChars (a ++ [c]) = p ++ [c] := by
  have hchars : (escape s).toList = escapeFrom true s.toList := String.toList_ofList
  refine ⟨?_, ?_, ?_⟩
  · rw [unescape, hchars, unescapeChars_escapeFrom, String.ofList_toList]
  · intro a c b h hc
    rw [hchars] at h
    obtain ⟨p, q, hs, hb, ha⟩ := exists_at_of_escapeFrom hc h
    have hbefore : a = beforeWritten p c := by
      rw [escapeFrom_at, escapeFrom] at ha
      exact (List.append_left_inj _).1 ha
    refine ⟨p, q, hs, ?_, ?_, ?_⟩
    · rw [ha, unescapeChars_escapeFrom]
    · rw [hb, unescapeChars_escapeFrom]
    · rw [hbefore, odd_backslashes_beforeWritten, isEscaped_iff, isAfter_true, or_iff_right hc]
  · intro p c q hs hc
    refine ⟨beforeWritten p c, escapeFrom (c == '\n') q, ?_, ?_⟩
    · rw [hchars, hs, escapeFrom_at]
    · have hp := escapeFrom_at p c []
      rw [escapeFrom] at hp
      rw [← hp, unescapeChars_escapeFrom]

/-- A hyphen at the start of a line, behind a line with a backslash and an asterisk. -/
theorem unescape_escape_hyphen :
    unescape (escape "\\*\n- x") = "\\*\n- x" ∧
      ∃ a b, (escape "\\*\n- x").toList = a ++ '-' :: b ∧ unescapeChars (a ++ ['-']) = "\\*\n-".toList ∧
        Odd (backslashes a) := by
  obtain ⟨hback, hout, hin⟩ := unescape_escape "\\*\n- x"
  obtain ⟨a, b, hat, hread⟩ := hin "\\*\n".toList '-' " x".toList (by decide) (by decide)
  obtain ⟨p, q, -, hp, -, hodd⟩ := hout a '-' b hat (by decide)
  have hpre : p = "\\*\n".toList := (List.append_left_inj _).1 (hp.symm.trans hread)
  exact ⟨hback, a, b, hat, hread, hodd.2 (.inr ⟨by decide, .inr (hpre ▸ by decide)⟩)⟩

example : escape "\\*\n- x" = "\\\\\\*\n\\- x" := by decide

end RichDoc.Writer
