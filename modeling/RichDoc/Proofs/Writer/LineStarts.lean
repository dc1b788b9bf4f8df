import RichDoc.Proofs.Writer.Blocks
import RichDoc.Proofs.Writer.Escapes

/-!
# The starts of written lines

Text is escaped line by line (`splitLines_escape`). A written line does not begin a block, since the first character
of each marker is escaped at the start of a line, but for one kind of marker: digits are written as they stand, so a
line that reads as a numbered item in the text still does so when it is written (`startsBlock_escape_iff`).
-/

namespace RichDoc.Writer
open Text

variable {first lineStart : Bool} {c : Char} {l p q rest : List Char} {n m : Node}

/-! ### What begins a block -/

/-- Nothing, or a blank: what stands behind a marker. -/
def Parted (rest : List Char) : Prop := ∀ c, rest.head? = some c → c = ' ' ∨ c = '\t'

def NotBlank (rest : List Char) : Prop := ∃ c ∈ rest, c ≠ ' ' ∧ c ≠ '\t'

/-- A numbered item. Below the `first` line of a paragraph it interrupts the paragraph if its number is one and it is
not empty. -/
def Numbered (first : Bool) (l : List Char) : Prop :=
  ∃ digits mark rest, l = digits ++ mark :: rest ∧ 1 ≤ digits.length ∧ digits.length ≤ 9 ∧
    (∀ d ∈ digits, d.isDigit = true) ∧ (mark = '.' ∨ mark = ')') ∧ Parted rest ∧
    (first = true ∨ digits.dropWhile (· = '0') = ['1'] ∧ NotBlank rest)

/-- What begins a block at the start of a line, or makes a heading of the lines above it. -/
inductive Opens (first : Bool) : List Char → Prop where
  | heading {n : Nat} {rest : List Char} (hmin : 1 ≤ n) (hmax : n ≤ 6) (h : Parted rest) :
    Opens first (List.replicate n '#' ++ rest)
  | quote {rest : List Char} : Opens first ('>' :: rest)
  | bullet {c : Char} {rest : List Char} (hc : c = '-' ∨ c = '+' ∨ c = '*') (h : Parted rest) : Opens first (c :: rest)
  | numbered {l : List Char} (h : Numbered first l) : Opens first l
  | rule {c : Char} {rest : List Char} (hc : c = '*' ∨ c = '-' ∨ c = '_') (hcount : 2 ≤ rest.count c)
    (h : ∀ x ∈ rest, x = c ∨ x = ' ' ∨ x = '\t') : Opens first (c :: rest)
  | underline {c : Char} {n : Nat} {rest : List Char} (hc : c = '=' ∨ c = '-') (hn : 1 ≤ n) (h : ¬ NotBlank rest) :
    Opens first (List.replicate n c ++ rest)
  | fence {c : Char} {n : Nat} {rest : List Char} (hc : c = tick ∨ c = '~') (hn : 3 ≤ n) :
    Opens first (List.replicate n c ++ rest)
  | html {rest : List Char} : Opens first ('<' :: rest)

/-- A line that begins a block, behind three blanks at most. -/
def StartsBlock (first : Bool) (line : String) : Prop :=
  (line.toList.takeWhile (· = ' ')).length ≤ 3 ∧ Opens first (line.toList.dropWhile (· = ' '))

theorem Numbered.exists_digit (h : Numbered first l) : ∃ d, l.head? = some d ∧ d.isDigit = true := by
  obtain ⟨digits, mark, rest, rfl, hlen, -, hdigits, -⟩ := h
  obtain ⟨d, ds, rfl⟩ := List.exists_cons_of_length_pos hlen
  exact ⟨d, rfl, hdigits d List.mem_cons_self⟩

/-- A marker other than a number begins with a character that is escaped at the start of a line. -/
theorem Opens.cases_head (h : Opens first l) :
    Numbered first l ∨ ∃ c, l.head? = some c ∧ c ≠ '\\' ∧ isEscaped true c = true := by
  have hrun (c : Char) (n : Nat) (rest : List Char) (hn : 1 ≤ n) : (List.replicate n c ++ rest).head? = some c := by
    obtain ⟨k, rfl⟩ := Nat.exists_eq_add_of_le' hn
    rfl
  cases h with
  | heading hmin => exact .inr ⟨'#', hrun _ _ _ hmin, by decide, by decide⟩
  | quote => exact .inr ⟨'>', rfl, by decide, by decide⟩
  | bullet hc => rcases hc with rfl | rfl | rfl <;> exact .inr ⟨_, rfl, by decide, by decide⟩
  | numbered h => exact .inl h
  | rule hc => rcases hc with rfl | rfl | rfl <;> exact .inr ⟨_, rfl, by decide, by decide⟩
  | underline hc hn => rcases hc with rfl | rfl <;> exact .inr ⟨_, hrun _ _ _ hn, by decide, by decide⟩
  | fence hc hn => rcases hc with rfl | rfl <;> exact .inr ⟨_, hrun _ _ _ (by omega), by decide, by decide⟩
  | html => exact .inr ⟨'<', rfl, by decide, by decide⟩

/-! ### Text as it is written -/

theorem not_blank_of_isEscaped (h : isEscaped lineStart c = true) : c ≠ ' ' ∧ c ≠ '\t' := by
  have hno : ' ' ∉ escapable ∧ '\t' ∉ escapable := by decide
  have hc := mem_escapable_of_isEscaped h
  exact ⟨fun heq => hno.1 (heq ▸ hc), fun heq => hno.2 (heq ▸ hc)⟩

theorem isEscaped_true (h : isEscaped lineStart c = true) : isEscaped true c = true := by
  rw [isEscaped_iff] at h ⊢
  tauto

theorem escapeFrom_of_plain (hp : ∀ c ∈ p, isEscaped true c = false ∧ c ≠ '\n') (hne : p ≠ []) (q : List Char) :
    escapeFrom lineStart (p ++ q) = p ++ escapeFrom false q := by
  induction p generalizing lineStart with
  | nil => exact absurd rfl hne
  | cons c p ih =>
    rw [List.forall_mem_cons] at hp
    obtain ⟨⟨hc, hfeed⟩, hp⟩ := hp
    have halone : written lineStart c = [c] := by
      refine if_neg fun h => ?_
      rw [isEscaped_true h] at hc
      exact absurd hc (by decide)
    rw [List.cons_append, escapeFrom_cons, halone, beq_false_of_ne hfeed]
    cases p with
    | nil => rfl
    | cons d p => rw [ih hp (List.cons_ne_nil d p)]; rfl

theorem unescapeChars_of_not_mem (h : '\\' ∉ p) : unescapeChars p = p := by
  induction p with
  | nil => rfl
  | cons c p ih =>
    rw [List.mem_cons, not_or] at h
    rw [unescapeChars, letters_cons fun hc => absurd hc (Ne.symm h.1), List.map_cons]
    exact congrArg (c :: ·) (ih h.2)

theorem head?_escapeFrom_cons (lineStart : Bool) (c : Char) (r : List Char) :
    (escapeFrom lineStart (c :: r)).head? = some (if isEscaped lineStart c then '\\' else c) := by
  rw [escapeFrom_cons, written]
  split <;> rfl

theorem parted_escapeFrom : Parted (escapeFrom lineStart l) ↔ Parted l := by
  cases l with
  | nil => rfl
  | cons c r =>
    unfold Parted
    rw [head?_escapeFrom_cons, List.head?_cons]
    split
    · next h =>
      -- what is escaped is no blank, nor is the backslash
      simp [not_blank_of_isEscaped h]
    · rfl

theorem notBlank_append : NotBlank (p ++ q) ↔ NotBlank p ∨ NotBlank q := by
  simp only [NotBlank, List.mem_append, or_and_right, exists_or]

theorem notBlank_escapeFrom : NotBlank (escapeFrom lineStart l) ↔ NotBlank l := by
  induction l generalizing lineStart with
  | nil => rfl
  | cons c r ih =>
    have hc : NotBlank (written lineStart c) ↔ NotBlank [c] := by
      unfold written
      split
      · next h =>
        have hc := not_blank_of_isEscaped h
        exact iff_of_true ⟨c, by simp, hc⟩ ⟨c, by simp, hc⟩
      · rfl
    rw [escapeFrom_cons, notBlank_append, hc, ih, ← notBlank_append]
    rfl

theorem isEscaped_of_isDigit (hc : c.isDigit = true) : isEscaped true c = false := by
  refine Bool.eq_false_iff.2 fun h => ?_
  have hno : escapable.any Char.isDigit = false := by decide
  exact List.any_eq_false.1 hno c (mem_escapable_of_isEscaped h) hc

theorem numbered_escapeFrom : Numbered first (escapeFrom lineStart l) ↔ Numbered first l := by
  have hplain (digits : List Char) (mark : Char) (hdigits : ∀ d ∈ digits, d.isDigit = true)
      (hmark : mark = '.' ∨ mark = ')') : ∀ c ∈ digits ++ [mark], isEscaped true c = false ∧ c ≠ '\n' := by
    intro c hc
    rcases List.mem_append.1 hc with hc | hc
    · refine ⟨isEscaped_of_isDigit (hdigits c hc), ?_⟩
      rintro rfl
      exact absurd (hdigits '\n' hc) (by decide)
    · obtain rfl := List.mem_singleton.1 hc
      rcases hmark with rfl | rfl <;> decide
  constructor
  · rintro ⟨digits, mark, rest, hl, hmin, hmax, hdigits, hmark, hparted, hfirst⟩
    have hno : mark ≠ '\\' := by rcases hmark with rfl | rfl <;> decide
    obtain ⟨p, q, rfl, rfl, hp⟩ := exists_at_of_escapeFrom hno hl
    have hread := congrArg unescapeChars hp
    rw [unescapeChars_escapeFrom, unescapeChars_of_not_mem] at hread
    · obtain rfl : digits = p := (List.append_left_inj _).1 hread
      rw [parted_escapeFrom] at hparted
      rw [notBlank_escapeFrom] at hfirst
      exact ⟨digits, mark, q, rfl, hmin, hmax, hdigits, hmark, hparted, hfirst⟩
    · intro hmem
      exact absurd (hplain digits mark hdigits hmark _ hmem).1 (by decide)
  · rintro ⟨digits, mark, rest, rfl, hmin, hmax, hdigits, hmark, hparted, hfirst⟩
    refine ⟨digits, mark, escapeFrom false rest, ?_, hmin, hmax, hdigits, hmark, parted_escapeFrom.2 hparted,
      hfirst.imp_right fun h => ⟨h.1, notBlank_escapeFrom.2 h.2⟩⟩
    rw [← List.singleton_append, ← List.append_assoc, escapeFrom_of_plain (hplain digits mark hdigits hmark) (by simp)]
    simp

theorem opens_escapeFrom : Opens first (escapeFrom true l) ↔ Numbered first l := by
  constructor
  · intro h
    rcases h.cases_head with hnumbered | ⟨c, hhead, hc, hescaped⟩
    · exact numbered_escapeFrom.1 hnumbered
    -- the first character would have a backslash before it
    · exfalso
      cases l with
      | nil => simp [escapeFrom] at hhead
      | cons d r =>
        rw [head?_escapeFrom_cons, Option.some_inj] at hhead
        split at hhead
        · exact hc hhead.symm
        · next hd =>
          subst hhead
          exact hd hescaped
  · intro h
    exact .numbered (numbered_escapeFrom.2 h)

/-! ### Lines -/

theorem mem_escapeFrom (h : c ∈ escapeFrom lineStart l) : c = '\\' ∨ c ∈ l := by
  induction l generalizing lineStart with
  | nil => simp [escapeFrom] at h
  | cons d r ih =>
    rw [escapeFrom_cons, List.mem_append] at h
    rcases h with h | h
    · unfold written at h
      split at h
      · simp only [List.mem_cons, List.not_mem_nil, or_false] at h
        rcases h with rfl | rfl
        · exact .inl rfl
        · exact .inr List.mem_cons_self
      · exact .inr (List.mem_singleton.1 h ▸ List.mem_cons_self)
    · exact (ih h).imp_right (List.mem_cons_of_mem d)

theorem isLine_escape {s : String} (h : IsLine s) : IsLine (escape s) := by
  intro hfeed
  rw [escape, String.toList_ofList] at hfeed
  rcases mem_escapeFrom hfeed with heq | hmem
  · exact absurd heq (by decide)
  · exact h hmem

/-- Escaping starts afresh behind a line feed. -/
theorem escape_append_lineFeed (s t : String) : escape (s ++ "\n" ++ t) = escape s ++ "\n" ++ escape t := by
  apply String.toList_injective
  have hfeed (lineStart : Bool) (r : List Char) :
      escapeFrom lineStart ('\n' :: r) = '\n' :: escapeFrom true r := by
    cases lineStart <;> rfl
  have hchars : "\n".toList = ['\n'] := rfl
  simp only [escape, String.toList_append, String.toList_ofList, hchars, List.append_assoc, List.singleton_append]
  rw [escapeFrom_append, hfeed]

theorem escape_joinWith (ls : List String) : escape (joinWith "\n" ls) = joinWith "\n" (ls.map escape) := by
  fun_induction joinWith "\n" ls with
  | case1 => rfl
  | case2 s => rfl
  | case3 s r hr ih => rw [escape_append_lineFeed, ih, List.map_cons, joinWith_cons _ _ (by simpa using hr)]

theorem splitLines_escape (s : String) : splitLines (escape s) = (splitLines s).map escape := by
  have hne : splitLines s ≠ [] := by simp [splitLines, splitOnChar_ne_nil]
  rw [← joinWith_splitLines s, escape_joinWith, splitLines_joinWith, joinWith_splitLines]
  · intro l hl
    obtain ⟨k, hk, rfl⟩ := List.mem_map.1 hl
    exact isLine_escape (isLine_of_mem_splitLines hk)
  · simpa using hne

theorem startsBlock_escape_iff {s : String} (hs : s.toList.head? ≠ some ' ') :
    StartsBlock first (escape s) ↔ Numbered first s.toList := by
  have hchars : (escape s).toList = escapeFrom true s.toList := String.toList_ofList
  have hhead : (escapeFrom true s.toList).head? ≠ some ' ' := by
    cases hl : s.toList with
    | nil => simp [escapeFrom]
    | cons c r =>
      rw [head?_escapeFrom_cons]
      split
      · decide
      · rwa [hl] at hs
  obtain ⟨hnone, hall⟩ := run_at_start ' ' 0 hhead
  rw [List.replicate_zero, List.nil_append] at hnone hall
  rw [StartsBlock, hchars, hnone, hall, opens_escapeFrom]
  exact and_iff_right (by decide)

/-- A paragraph of a text is written line by line. A line of it begins a block or interrupts the paragraph exactly if
it does so as a numbered item in the text itself; no other marker is left standing. -/
theorem startsBlock_paragraph_iff (hk : n.kind = .paragraph) (hcs : n.childList = [m]) (hm : m.kind = .text)
    (hlines : ∀ l ∈ splitLines (m.value.getD ""), ∃ c, l.toList.head? = some c ∧ c ≠ ' ' ∧ c ≠ '\t') :
    block n = .ok ((splitLines (m.value.getD "")).map escape) ∧
    ∀ i l, (splitLines (m.value.getD ""))[i]? = some l →
      (StartsBlock (i == 0) (escape l) ↔ Numbered (i == 0) l.toList) := by
  refine ⟨?_, ?_⟩
  · have hblock : block n = .ok (splitLines (inlines n.childList)) := by
      rw [block_of_ownForm (by simp [hk, hasOwnForm]) (by simp [hk]) (by simp [hk]), layout_eq, hk]
    have htext : inline m = escape (m.value.getD "") := by rw [inline_eq, hm]
    rw [hblock, hcs, inlines_singleton, htext, splitLines_escape]
  · intro i l hl
    obtain ⟨c, hhead, hblank, -⟩ := hlines l (List.mem_of_getElem? hl)
    refine startsBlock_escape_iff ?_
    rw [hhead]
    simpa using hblank

/-- The second line interrupts the paragraph, and the third does not. -/
def numbers : Node := .parent .paragraph [.literal .text "# a\n1. b\n2. c"]

theorem startsBlock_numbers :
    (∀ l ∈ splitLines "# a\n1. b\n2. c", ∃ c, l.toList.head? = some c ∧ c ≠ ' ' ∧ c ≠ '\t') ∧
    block numbers = .ok ["\\# a", "1. b", "2. c"] ∧ ¬ StartsBlock true "\\# a" ∧ StartsBlock false "1. b" := by
  have hsplit : splitLines "# a\n1. b\n2. c" = ["# a", "1. b", "2. c"] := by decide
  have hlines : ∀ l ∈ splitLines "# a\n1. b\n2. c", ∃ c, l.toList.head? = some c ∧ c ≠ ' ' ∧ c ≠ '\t' := by
    rw [hsplit]
    intro l hl
    simp only [List.mem_cons, List.not_mem_nil, or_false] at hl
    rcases hl with rfl | rfl | rfl <;> exact ⟨_, rfl, by decide, by decide⟩
  obtain ⟨hblock, hiff⟩ := startsBlock_paragraph_iff (n := numbers) (m := .literal .text "# a\n1. b\n2. c") rfl rfl rfl
    hlines
  refine ⟨hlines, hblock.trans (congrArg Except.ok (by decide)), fun h => ?_, ?_⟩
  · obtain ⟨d, hd, hdigit⟩ := ((hiff 0 "# a" (by decide)).1 h).exists_digit
    obtain rfl : '#' = d := Option.some.inj hd
    exact absurd hdigit (by decide)
  · refine (hiff 1 "1. b" (by decide)).2 ⟨['1'], '.', " b".toList, by decide, by decide, by decide, by simp, .inl rfl,
      fun c hc => .inl (Option.some.inj hc).symm, .inr ⟨by decide, 'b', by decide, by decide, by decide⟩⟩

/-- Text that reads as a numbered item is written as it stands, and begins a list. -/
theorem not_forall_not_startsBlock :
    ¬ ∀ n m : Node, n.kind = .paragraph → n.childList = [m] → m.kind = .text →
      (∀ l ∈ splitLines (m.value.getD ""), ∃ c, l.toList.head? = some c ∧ isBlank c = false) →
      ∀ ls, block n = .ok ls → ∀ i l, ls[i]? = some l → ¬ StartsBlock (i == 0) l := by
  intro h
  have hsplit : splitLines "1. a" = ["1. a"] := by decide
  have hblock : block (.parent .paragraph [.literal .text "1. a"]) = .ok ["1. a"] :=
    (block_of_ownForm rfl (by decide) (by decide)).trans (congrArg Except.ok (by decide))
  refine h (.parent .paragraph [.literal .text "1. a"]) (.literal .text "1. a") rfl rfl rfl ?_ _ hblock 0 "1. a" rfl ?_
  · intro l hl
    obtain rfl := List.mem_singleton.1 (hsplit ▸ hl)
    exact ⟨'1', rfl, by decide⟩
  · exact ⟨by decide, .numbered ⟨['1'], '.', " a".toList, by decide, by decide, by decide, by simp, .inl rfl,
      fun c hc => .inl (Option.some.inj hc).symm, .inl rfl⟩⟩

end RichDoc.Writer
