import Mathlib.Data.List.Chain
import Mathlib.Data.String.Basic
import RichDoc.Proofs.Writer.Blocks
import RichDoc.Proofs.Writer.Escapes

/-!
# Reading the tails of links

The tail of a link or an image is read in a line: a destination, in angle brackets or as it stands, and a title in
quotes (`readLinkTail`). The writer puts the destination there as it is, and in the title it escapes the quotes but no
backslash. So the tail is read back if and only if the destination can stand without brackets and no backslash in
either stands before punctuation (`readLinkTail_iff`). That the tail is not read back in another way is a matter of
length: a bracket, a further blank or a further escape takes a character, and there is none for it (`Shortest`).
-/

namespace RichDoc.Writer
open Text

variable {c x stop : Char} {s url : List Char} {title : Option (List Char)} {depth : Nat}
  {ls ms ls' ms' rest : List Letter} {q refused : Char → Bool}

/-! ### The reader -/

def isGap (l : Letter) : Bool := l == (' ', false) || l == ('\t', false)

/-- A space or a control character. -/
def endsDestination (c : Char) : Bool := c == ' ' || c.toNat < 0x20 || c.toNat == 0x7F

def prepend (c : Char) : Option (List Char × List Letter) → Option (List Char × List Letter) :=
  Option.map fun (s, rest) => (c :: s, rest)

/-- The text before the next `stop` that is not escaped, and what follows that. -/
def readUntil (stop : Char) (refused : Char → Bool) : List Letter → Option (List Char × List Letter)
  | [] => none
  | (c, literal) :: r =>
    if !literal && c == stop then some ([], r)
    else if !literal && refused c then none
    else prepend c (readUntil stop refused r)

/-- A destination without brackets, inside `depth` parentheses of its own, and what follows it. -/
def readPlain (depth : Nat) : List Letter → Option (List Char × List Letter)
  | [] => if depth = 0 then some ([], []) else none
  | (c, literal) :: r =>
    if literal then prepend c (readPlain depth r)
    else if c = '(' then prepend c (readPlain (depth + 1) r)
    else if c = ')' ∧ 0 < depth then prepend c (readPlain (depth - 1) r)
    else if c = ')' ∨ endsDestination c then if depth = 0 then some ([], (c, literal) :: r) else none
    else prepend c (readPlain depth r)

def endsLine (c : Char) : Bool := c == '\n' || c == '\r'

def readDestination : List Letter → Option (List Char × List Letter)
  | ('<', false) :: r => readUntil '>' (fun c => c == '<' || endsLine c) r
  | ls => readPlain 0 ls

/-- The title in quotes, if there is one; a blank stands before it. -/
def readTitle (ls : List Letter) : Option (Option (List Char) × List Letter) :=
  match ls.dropWhile isGap with
  | ('\x22', false) :: r =>
    if ls.takeWhile isGap = [] then none
    else (readUntil '\x22' endsLine r).map fun (t, rest) => (some t, rest)
  | rest => some (none, rest)

def readTail : List Letter → Option (List Char × Option (List Char) × List Letter)
  | ('(', false) :: r =>
    (readDestination (r.dropWhile isGap)).bind fun (url, r) => (readTitle r).bind fun (title, r) =>
      match r.dropWhile isGap with
      | (')', false) :: rest => some (url, title, rest)
      | _ => none
  | _ => none

/-- The destination and the title of a tail, if that is all there is. -/
def readLinkTail (s : String) : Option (String × Option String) :=
  match readTail (letters s.toList) with
  | some (url, title, []) => some (String.ofList url, title.map String.ofList)
  | _ => none

/-! ### Letters and the text they stand for -/

/-- The text that consists of letters. -/
def raw (ls : List Letter) : List Char := ls.flatMap fun (c, literal) => if literal then ['\\', c] else [c]

theorem raw_append (ls ms : List Letter) : raw (ls ++ ms) = raw ls ++ raw ms := List.flatMap_append

theorem raw_bare (c : Char) (ls : List Letter) : raw ((c, false) :: ls) = c :: raw ls := rfl

theorem raw_escaped (c : Char) (ls : List Letter) : raw ((c, true) :: ls) = '\\' :: c :: raw ls := rfl

theorem raw_letters (s : List Char) : raw (letters s) = s := by
  fun_induction letters s with
  | case1 c r hc ih => rw [raw_escaped, ih]
  | case2 c r hc ih => rw [raw_bare, ih]
  | case3 c r h ih => rw [raw_bare, ih]
  | case4 => rfl

/-- No backslash of the text stands before punctuation. -/
def Literal (s : List Char) : Prop := s.IsChain fun c d => c = '\\' → isAsciiPunct d = false

/-- No backslash that is a letter stands before punctuation. -/
def Unjoined (ls : List Letter) : Prop := ls.IsChain fun l m => l = ('\\', false) → isAsciiPunct m.1 = false

instance (s : List Char) : Decidable (Literal s) := inferInstanceAs (Decidable (s.IsChain _))

theorem unjoined_split :
    Unjoined (ls ++ (x, false) :: ms) ↔ Unjoined (ls ++ [(x, false)]) ∧ Unjoined ((x, false) :: ms) :=
  List.isChain_split

theorem unjoined_cons (hc : c ≠ '\\') : Unjoined ((c, false) :: ls) ↔ Unjoined ls := by
  refine List.isChain_cons.trans (and_iff_right fun m _ h => ?_)
  exact absurd (congrArg Prod.fst h) hc

/-- A character is a letter of its own unless it is a backslash that joins the next character. -/
theorem letters_cons_iff : letters (c :: s) = (c, false) :: ls ↔
    (c = '\\' → ∀ d, s.head? = some d → isAsciiPunct d = false) ∧ letters s = ls := by
  by_cases hapart : c = '\\' → ∀ d, s.head? = some d → isAsciiPunct d = false
  · rw [letters_cons hapart, List.cons.injEq, and_iff_right rfl, and_iff_right hapart]
  · obtain ⟨rfl, d, hd, hpunct⟩ : c = '\\' ∧ ∃ d, s.head? = some d ∧ isAsciiPunct d = true := by
      simpa using hapart
    obtain ⟨r, rfl⟩ := List.head?_eq_some_iff.1 hd
    rw [letters_escaped hpunct]
    exact iff_of_false (by simp) fun h => hapart h.1

/-- The text of a letter and what follows begins with punctuation if the letter is punctuation. -/
theorem exists_head_raw (hls : ∀ l ∈ ls, l.2 = true → isAsciiPunct l.1 = true) (x : Char) (r : List Char) :
    ∃ m d, (ls ++ [(x, false)]).head? = some m ∧ (raw ls ++ x :: r).head? = some d ∧
      isAsciiPunct d = isAsciiPunct m.1 := by
  cases ls with
  | nil => exact ⟨(x, false), x, rfl, rfl, rfl⟩
  | cons l ls =>
    obtain ⟨c, _ | _⟩ := l
    · exact ⟨(c, false), c, rfl, rfl, rfl⟩
    · exact ⟨(c, true), '\\', rfl, rfl, (hls (c, true) List.mem_cons_self rfl).symm⟩

/-- Letters are read in the text they stand for if and only if none of them joins the next. -/
theorem letters_raw_iff (hls : ∀ l ∈ ls, l.2 = true → isAsciiPunct l.1 = true) (r : List Char) :
    letters (raw ls ++ x :: r) = ls ++ letters (x :: r) ↔ Unjoined (ls ++ [(x, false)]) := by
  induction ls with
  | nil => exact iff_of_true rfl (List.isChain_singleton _)
  | cons l ls ih =>
    rw [List.forall_mem_cons] at hls
    have hchain : Unjoined (l :: ls ++ [(x, false)]) ↔
        (∀ m ∈ (ls ++ [(x, false)]).head?, l = ('\\', false) → isAsciiPunct m.1 = false) ∧
          Unjoined (ls ++ [(x, false)]) := List.isChain_cons
    obtain ⟨c, _ | _⟩ := l
    · obtain ⟨m, d, hm, hd, hpunct⟩ := exists_head_raw hls.2 x r
      rw [raw_bare, hchain, ← ih hls.2, List.cons_append, List.cons_append, letters_cons_iff, hm, hd]
      refine and_congr_left' ?_
      simp [hpunct]
    · have hleft : ∀ m ∈ (ls ++ [(x, false)]).head?, ((c, true) : Letter) = ('\\', false) → isAsciiPunct m.1 = false :=
        fun m _ hl => absurd (congrArg Prod.snd hl) Bool.noConfusion
      rw [raw_escaped, List.cons_append, List.cons_append, letters_escaped (hls.1 rfl), hchain, List.cons_append,
        List.cons.injEq, and_iff_right rfl, and_iff_right hleft, ih hls.2]

/-! ### Letters as they are written -/

/-- A text with a backslash before the characters that `q` picks. -/
def mark (q : Char → Bool) (s : List Char) : List Letter := s.map fun c => (c, q c)

def plain (s : List Char) : List Letter := mark (fun _ => false) s

theorem unjoined_mark (hq : q '\\' = false) (s : List Char) (x : Char) :
    Unjoined (mark q s ++ [(x, false)]) ↔ Literal (s ++ [x]) := by
  have hchars : (mark q s ++ [(x, false)]).map Prod.fst = s ++ [x] := by simp [mark, Function.comp_def]
  rw [Literal, ← hchars, List.isChain_map]
  refine List.IsChain.iff_of_mem_imp fun l m hl _ => ?_
  have hbare : l = ('\\', false) ↔ l.1 = '\\' := by
    refine ⟨congrArg Prod.fst, fun h => Prod.ext h ?_⟩
    rcases List.mem_append.1 hl with hl | hl
    · obtain ⟨c, -, rfl⟩ := List.mem_map.1 hl
      exact congrArg q h ▸ hq
    · obtain rfl := List.mem_singleton.1 hl
      rfl
  rw [hbare]

theorem unjoined_plain (s : List Char) (x : Char) : Unjoined (plain s ++ [(x, false)]) ↔ Literal (s ++ [x]) :=
  unjoined_mark rfl s x

/-- The text of `ms` is no shorter than that of `ls`, and is the same only if `ms` is `ls`. -/
structure Shortest (ls ms : List Letter) : Prop where
  length_le : (raw ls).length ≤ (raw ms).length
  eq : raw ms = raw ls → ms = ls

theorem Shortest.of_append (h : Shortest ls ms) (h' : Shortest ls' ms') (heq : raw (ms ++ ms') = raw (ls ++ ls')) :
    ms = ls ∧ ms' = ls' := by
  rw [raw_append, raw_append] at heq
  have hlen := congrArg List.length heq
  rw [List.length_append, List.length_append] at hlen
  have hle := h.length_le
  have hle' := h'.length_le
  obtain ⟨hraw, hraw'⟩ := List.append_inj heq (by omega)
  exact ⟨h.eq hraw, h'.eq hraw'⟩

theorem Shortest.append (h : Shortest ls ms) (h' : Shortest ls' ms') : Shortest (ls ++ ls') (ms ++ ms') where
  length_le := by
    rw [raw_append, raw_append, List.length_append, List.length_append]
    exact Nat.add_le_add h.length_le h'.length_le
  eq heq := by
    obtain ⟨rfl, rfl⟩ := h.of_append h' heq
    rfl

theorem Shortest.refl (ls : List Letter) : Shortest ls ls := ⟨le_rfl, fun _ => rfl⟩

theorem shortest_nil (ms : List Letter) : Shortest [] ms where
  length_le := Nat.zero_le _
  eq heq := by
    rcases ms with _ | ⟨⟨c, _ | _⟩, ms⟩
    · rfl
    · exact absurd heq (List.cons_ne_nil _ _)
    · exact absurd heq (List.cons_ne_nil _ _)

theorem shortest_singleton {l : Letter} (hl : l.2 = false) (c : Char) (ms : List Letter) :
    Shortest [(c, false)] (l :: ms) := by
  have hhead : Shortest [(c, false)] [l] := by
    obtain ⟨d, _⟩ := l
    obtain rfl := hl
    refine ⟨le_rfl, fun heq => ?_⟩
    obtain rfl := (List.cons.inj heq).1
    rfl
  exact hhead.append (shortest_nil ms)

/-- Letters that hold a text are no shorter than the text with the backslashes it cannot do without. -/
theorem shortest_mark (hls : ∀ l ∈ ls, q l.1 = true → l.2 = true) : Shortest (mark q (ls.map Prod.fst)) ls := by
  induction ls with
  | nil => exact .refl []
  | cons l ls ih =>
    rw [List.forall_mem_cons] at hls
    have hhead : Shortest [(l.1, q l.1)] [l] := by
      obtain ⟨c, b⟩ := l
      by_cases hqb : q c = b
      · rw [hqb]
        exact .refl _
      · obtain ⟨hq, rfl⟩ : q c = false ∧ b = true := by
          cases hq : q c
          · exact ⟨rfl, by simpa [hq] using hqb⟩
          · exact absurd (hq.trans (hls.1 hq).symm) hqb
        rw [hq]
        exact ⟨Nat.le_succ 1, fun heq => absurd (List.cons.inj heq).2 (List.cons_ne_nil _ _)⟩
    exact hhead.append (ih hls.2)

theorem shortest_plain (ls : List Letter) : Shortest (plain (ls.map Prod.fst)) ls :=
  shortest_mark fun _ _ hl => absurd hl Bool.false_ne_true

def isQuote (c : Char) : Bool := c == '\x22'

def titleLetters : Option (List Char) → List Letter
  | none => []
  | some t => (' ', false) :: ('\x22', false) :: (mark isQuote t ++ [('\x22', false)])

/-- The letters of a written tail, up to the parenthesis that ends it. -/
def tailLetters (url : List Char) (title : Option (List Char)) : List Letter :=
  ('(', false) :: (plain url ++ titleLetters title)

theorem raw_plain (s : List Char) : raw (plain s) = s := by
  induction s with
  | nil => rfl
  | cons c r ih => exact congrArg (c :: ·) ih

theorem raw_mark_isQuote (s : List Char) : raw (mark isQuote s) = escapeQuotes s := by
  induction s with
  | nil => rfl
  | cons c r ih =>
    rw [escapeQuotes, ← ih]
    by_cases hc : c = '\x22'
    · rw [if_pos hc]
      subst hc
      rfl
    · rw [if_neg hc, ← raw_bare]
      exact congrArg raw (congrArg (fun b => (c, b) :: mark isQuote r) (beq_false_of_ne hc))

theorem linkTail_eq_raw (url : String) (title : Option String) :
    (linkTail url title).toList = raw (tailLetters url.toList (title.map String.toList)) ++ [')'] := by
  have htitle : (titleTail title).toList = raw (titleLetters (title.map String.toList)) := by
    cases title with
    | none => rfl
    | some t =>
      rw [toList_titleTail, Option.map_some, titleLetters, raw_bare, raw_bare, raw_append, raw_mark_isQuote]
      rfl
  rw [toList_linkTail, tailLetters, raw_bare, raw_append, raw_plain, ← htitle, List.cons_append, List.append_assoc]

theorem unjoined_tailLetters : Unjoined (tailLetters url title ++ [(')', false)]) ↔
    Literal (url ++ [if title.isSome then ' ' else ')']) ∧ ∀ t, title = some t → Literal (t ++ ['\x22']) := by
  rw [tailLetters, List.cons_append, unjoined_cons (by decide)]
  cases title with
  | none =>
    rw [titleLetters, List.append_nil, unjoined_plain]
    simp
  | some t =>
    rw [titleLetters, List.append_assoc, List.cons_append, unjoined_split, unjoined_plain, unjoined_cons (by decide),
      List.cons_append, unjoined_cons (by decide), List.append_assoc, List.singleton_append, unjoined_split,
      unjoined_mark (by decide), unjoined_cons (by decide)]
    have hend : Unjoined [(')', false)] := List.isChain_singleton _
    simp [hend]

theorem isAsciiPunct_of_mem_tailLetters : ∀ l ∈ tailLetters url title, l.2 = true → isAsciiPunct l.1 = true := by
  rintro ⟨c, literal⟩ hl hlit
  obtain rfl : literal = true := hlit
  cases title with
  | none => simp [tailLetters, titleLetters, plain, mark] at hl
  | some t =>
    obtain ⟨-, rfl⟩ : '\x22' ∈ t ∧ '\x22' = c := by simpa [tailLetters, titleLetters, plain, mark, isQuote] using hl
    decide

/-! ### What is read -/

theorem isGap_eq_false (h : endsDestination c = false) : isGap (c, false) = false := by
  simp only [endsDestination, Bool.or_eq_false_iff, beq_eq_false_iff_ne] at h
  have htab : c ≠ '\t' := by
    rintro rfl
    exact absurd h.1.2 (by decide)
  simp [isGap, h.1.1, htab]

theorem prepend_eq_some {o : Option (List Char × List Letter)} :
    prepend c o = some (s, rest) ↔ ∃ s', o = some (s', rest) ∧ c :: s' = s := by
  simp [prepend, Option.map_eq_some_iff]

theorem exists_of_readUntil (h : readUntil stop refused ls = some (s, rest)) :
    ∃ ms, ls = ms ++ (stop, false) :: rest ∧ ms.map Prod.fst = s ∧ ∀ l ∈ ms, (l.1 == stop) = true → l.2 = true := by
  fun_induction readUntil stop refused ls generalizing s with
  | case1 => simp at h
  | case2 c literal r hstop =>
    obtain ⟨rfl, rfl⟩ := Prod.mk.inj (Option.some.inj h)
    obtain ⟨rfl, rfl⟩ : literal = false ∧ c = stop := by simpa using hstop
    exact ⟨[], rfl, rfl, by simp⟩
  | case3 c literal r hstop hrefused => simp at h
  | case4 c literal r hstop hrefused ih =>
    obtain ⟨s', hr, rfl⟩ := prepend_eq_some.1 h
    obtain ⟨ms, rfl, hs, hms⟩ := ih hr
    have hc : (c == stop) = true → literal = true := by
      intro hc
      simpa [hc] using hstop
    exact ⟨(c, literal) :: ms, rfl, congrArg (c :: ·) hs, List.forall_mem_cons.2 ⟨hc, hms⟩⟩

theorem readUntil_mark (hrefused : s.any refused = false) (rest : List Letter) :
    readUntil stop refused (mark (· == stop) s ++ (stop, false) :: rest) = some (s, rest) := by
  induction s with
  | nil => simp [mark, readUntil]
  | cons c r ih =>
    rw [List.any_cons, Bool.or_eq_false_iff] at hrefused
    show readUntil stop refused ((c, c == stop) :: (mark (· == stop) r ++ (stop, false) :: rest)) = some (c :: r, rest)
    rw [readUntil, ih hrefused.2, hrefused.1]
    cases c == stop <;> rfl

theorem exists_of_readPlain (h : readPlain depth ls = some (s, rest)) : ∃ ms, ls = ms ++ rest ∧ ms.map Prod.fst = s := by
  induction ls generalizing depth s with
  | nil =>
    rw [readPlain] at h
    split at h
    · obtain ⟨rfl, rfl⟩ := Prod.mk.inj (Option.some.inj h)
      exact ⟨[], rfl, rfl⟩
    · simp at h
  | cons l r ih =>
    obtain ⟨c, literal⟩ := l
    have hgo {depth : Nat} (h : prepend c (readPlain depth r) = some (s, rest)) :
        ∃ ms, (c, literal) :: r = ms ++ rest ∧ ms.map Prod.fst = s := by
      obtain ⟨s', hr, rfl⟩ := prepend_eq_some.1 h
      obtain ⟨ms, rfl, hs⟩ := ih hr
      exact ⟨(c, literal) :: ms, rfl, congrArg (c :: ·) hs⟩
    rw [readPlain] at h
    split at h
    · exact hgo h
    split at h
    · exact hgo h
    split at h
    · exact hgo h
    split at h
    · split at h
      · obtain ⟨rfl, rfl⟩ := Prod.mk.inj (Option.some.inj h)
        exact ⟨[], rfl, rfl⟩
      · simp at h
    · exact hgo h

/-- Inside `depth` parentheses, every parenthesis of a text is one of a pair. -/
def balanced (depth : Nat) : List Char → Bool
  | [] => depth == 0
  | c :: r =>
    if c = '(' then balanced (depth + 1) r
    else if c = ')' then 0 < depth && balanced (depth - 1) r
    else balanced depth r

/-- What stands before a blank or a parenthesis is read as it is if its parentheses are balanced, and it has no blank
of its own. -/
theorem readPlain_eq_some_iff (hx : x = ' ' ∨ x = ')') :
    readPlain depth (plain s ++ (x, false) :: rest) = some (s, (x, false) :: rest) ↔
      s.any endsDestination = false ∧ balanced depth s = true := by
  induction s generalizing depth with
  | nil =>
    show readPlain depth ((x, false) :: rest) = some ([], (x, false) :: rest) ↔ _
    have hends : x = ')' ∨ endsDestination x = true := hx.symm.imp_right (by rintro rfl; rfl)
    have hopen : x ≠ '(' := by
      rintro rfl
      simp at hx
    rw [readPlain, if_neg Bool.false_ne_true, if_neg hopen, balanced]
    rcases Nat.eq_zero_or_pos depth with rfl | hdepth
    · rw [if_neg (by simp), if_pos hends]
      simp
    · -- a parenthesis would be part of the text, and a blank cannot be
      split
      · simp [prepend_eq_some, hdepth.ne']
      · simp [hdepth.ne']
  | cons c r ih =>
    show readPlain depth ((c, false) :: (plain r ++ (x, false) :: rest)) =
      some (c :: r, (x, false) :: rest) ↔ _
    have hgo {depth : Nat} : prepend c (readPlain depth (plain r ++ (x, false) :: rest)) =
        some (c :: r, (x, false) :: rest) ↔ r.any endsDestination = false ∧ balanced depth r = true := by
      rw [prepend_eq_some, ← ih]
      simp
    rw [readPlain, if_neg Bool.false_ne_true, balanced, List.any_cons, Bool.or_eq_false_iff, and_assoc]
    by_cases hopen : c = '('
    · subst hopen
      have hends : endsDestination '(' = false := by decide
      rw [if_pos rfl, if_pos rfl, hgo, and_iff_right hends]
    rw [if_neg hopen, if_neg hopen]
    by_cases hclose : c = ')'
    · subst hclose
      have hends : endsDestination ')' = false := by decide
      rw [and_iff_right hends, if_pos rfl]
      by_cases hdepth : 0 < depth
      · rw [if_pos ⟨rfl, hdepth⟩, hgo]
        simp [hdepth]
      · simp [hdepth]
    · rw [if_neg fun h => hclose h.1, if_neg hclose]
      by_cases hends : endsDestination c = true
      · simp [hends]
      · rw [if_neg (not_or.2 ⟨hclose, hends⟩), hgo]
        simp [hends]

theorem readDestination_of_ne (h : ls.head? ≠ some ('<', false)) : readDestination ls = readPlain 0 ls := by
  unfold readDestination
  split
  · simp at h
  · rfl

theorem exists_of_readDestination (h : readDestination ls = some (url, rest)) :
    ∃ ms, ls = ms ++ rest ∧ Shortest (plain url) ms ∧
      (ms = plain url → ls.head? ≠ some ('<', false)) := by
  unfold readDestination at h
  split at h
  · -- the brackets are two more characters
    obtain ⟨ms, rfl, rfl, -⟩ := exists_of_readUntil h
    have hclose := List.append_nil _ ▸ (shortest_plain ms).append (shortest_nil [('>', false)])
    refine ⟨('<', false) :: (ms ++ [('>', false)]), by simp, (shortest_nil [('<', false)]).append hclose, fun heq => ?_⟩
    have hopen := (shortest_nil [('<', false)]).of_append hclose (congrArg raw heq)
    exact absurd hopen.1 (List.cons_ne_nil _ _)
  · next hne =>
    obtain ⟨ms, rfl, rfl⟩ := exists_of_readPlain h
    refine ⟨ms, rfl, shortest_plain ms, fun _ hhead => ?_⟩
    obtain ⟨r, hr⟩ := List.head?_eq_some_iff.1 hhead
    exact hne r hr

theorem exists_of_readTitle (h : readTitle ls = some (title, rest)) :
    ∃ ms, ls = ms ++ rest ∧ Shortest (titleLetters title) ms := by
  have hsplit : ls = ls.takeWhile isGap ++ ls.dropWhile isGap := List.takeWhile_append_dropWhile.symm
  have hgap : ∀ l ∈ ls.takeWhile isGap, l.2 = false := by
    intro l hl
    have hl := List.all_eq_true.1 List.all_takeWhile l hl
    simp only [isGap, Bool.or_eq_true, beq_iff_eq] at hl
    rcases hl with rfl | rfl <;> rfl
  unfold readTitle at h
  split at h
  · next r hr =>
    rw [hr] at hsplit
    split at h
    · simp at h
    · next hne =>
      obtain ⟨⟨t, rest'⟩, ht, heq⟩ := Option.map_eq_some_iff.1 h
      obtain ⟨rfl, rfl⟩ := Prod.mk.inj heq
      obtain ⟨ms, rfl, rfl, hms⟩ := exists_of_readUntil ht
      refine ⟨ls.takeWhile isGap ++ (('\x22', false) :: (ms ++ [('\x22', false)])), hsplit.trans (by simp), ?_⟩
      obtain ⟨g, gs, hg⟩ := List.exists_cons_of_ne_nil hne
      have hblank : Shortest [(' ', false)] (ls.takeWhile isGap) := by
        rw [hg] at hgap ⊢
        exact shortest_singleton (hgap g List.mem_cons_self) _ _
      have hquote : Shortest [('\x22', false)] [('\x22', false)] := .refl _
      exact hblank.append (hquote.append ((shortest_mark hms).append hquote))
  · obtain ⟨rfl, rfl⟩ := Prod.mk.inj (Option.some.inj h)
    exact ⟨ls.takeWhile isGap, hsplit, shortest_nil _⟩

theorem exists_of_readTail (h : readTail ls = some (url, title, rest)) : ∃ r r₁ r₂, ls = ('(', false) :: r ∧
    readDestination (r.dropWhile isGap) = some (url, r₁) ∧ readTitle r₁ = some (title, r₂) ∧
      r₂.dropWhile isGap = (')', false) :: rest := by
  unfold readTail at h
  split at h
  · next r =>
    obtain ⟨⟨url', r₁⟩, hurl, h⟩ := Option.bind_eq_some_iff.1 h
    obtain ⟨⟨title', r₂⟩, htitle, h⟩ := Option.bind_eq_some_iff.1 h
    dsimp only at h
    split at h
    · next rest' hend =>
      simp only [Option.some.injEq, Prod.mk.injEq] at h
      obtain ⟨rfl, rfl, rfl⟩ := h
      exact ⟨r, r₁, r₂, rfl, hurl, htitle, hend⟩
    · simp at h
  · simp at h

/-- A destination that can stand without brackets, and without a blank before it. -/
structure Bare (url : List Char) (title : Option (List Char)) : Prop where
  head : url.head? ≠ some '<'
  ends : url.any endsDestination = false
  balanced : balanced 0 url = true
  -- the title would be read as the destination
  ne_nil : title.isSome = true → url ≠ []

theorem exists_head_after (title : Option (List Char)) (rest : List Letter) :
    ∃ x r, (x = ' ' ∨ x = ')') ∧ titleLetters title ++ (')', false) :: rest = (x, false) :: r := by
  cases title with
  | none => exact ⟨')', rest, .inr rfl, rfl⟩
  | some t => exact ⟨' ', _, .inl rfl, rfl⟩

/-- If a tail is read back, it is read as it was written, since there is no room for anything else. -/
theorem bare_of_readTail (h : readTail ls = some (url, title, []))
    (hraw : raw ls = raw (tailLetters url title ++ [(')', false)])) :
    ls = tailLetters url title ++ [(')', false)] ∧ Bare url title := by
  obtain ⟨r, r₁, r₂, rfl, hurl, htitle, hend⟩ := exists_of_readTail h
  obtain ⟨ms₁, hms₁, hshort₁, hbracket⟩ := exists_of_readDestination hurl
  obtain ⟨ms₂, rfl, hshort₂⟩ := exists_of_readTitle htitle
  have hr₂ : r₂ = r₂.takeWhile isGap ++ [(')', false)] := by
    rw [← hend, List.takeWhile_append_dropWhile]
  have hr : r = r.takeWhile isGap ++ (ms₁ ++ (ms₂ ++ (r₂.takeWhile isGap ++ [(')', false)]))) := by
    rw [← hr₂, ← hms₁, List.takeWhile_append_dropWhile]
  have hshort₃ := (shortest_nil (r₂.takeWhile isGap)).append (.refl [(')', false)])
  rw [tailLetters, List.cons_append, raw_bare, raw_bare, List.append_assoc] at hraw
  -- no part is shorter than it was written, so each is just that
  obtain ⟨hgap, htail⟩ := (shortest_nil _).of_append (hshort₁.append (hshort₂.append hshort₃))
    (hr ▸ (List.cons.inj hraw).2)
  obtain ⟨rfl, hafter⟩ := hshort₁.of_append (hshort₂.append hshort₃) (congrArg raw htail)
  rw [← hr₂, List.nil_append] at hafter
  rw [hgap, ← hr₂, List.nil_append, hafter] at hr
  have hdrop : r.dropWhile isGap = r := by
    have hwhole : r.takeWhile isGap ++ r.dropWhile isGap = r := List.takeWhile_append_dropWhile
    rwa [hgap] at hwhole
  have hfirst : r.head? ≠ some ('<', false) := hdrop ▸ hbracket rfl
  rw [hdrop, readDestination_of_ne hfirst, hafter] at hurl
  obtain ⟨x, r', hx, hnext⟩ := exists_head_after title []
  rw [hr, hnext, readPlain_eq_some_iff hx] at hurl
  subst hr
  refine ⟨by simp [tailLetters], ?_, hurl.1, hurl.2, ?_⟩
  · intro hhead
    obtain ⟨u, rfl⟩ := List.head?_eq_some_iff.1 hhead
    exact hfirst rfl
  · rintro htitle rfl
    obtain ⟨t, rfl⟩ := Option.isSome_iff_exists.1 htitle
    exact absurd hgap (List.cons_ne_nil _ _)

theorem readTitle_titleLetters (hline : ∀ t, title = some t → t.any endsLine = false) (rest : List Letter) :
    readTitle (titleLetters title ++ (')', false) :: rest) = some (title, (')', false) :: rest) := by
  cases title with
  | none => rfl
  | some t =>
    have hquoted : titleLetters (some t) ++ (')', false) :: rest =
        (' ', false) :: ('\x22', false) :: (mark isQuote t ++ ('\x22', false) :: (')', false) :: rest) := by
      simp [titleLetters]
    have hread : readUntil '\x22' endsLine (mark isQuote t ++ ('\x22', false) :: (')', false) :: rest) =
        some (t, (')', false) :: rest) := readUntil_mark (hline t rfl) _
    rw [hquoted, readTitle, List.dropWhile_cons_of_pos rfl, List.dropWhile_cons_of_neg (by decide),
      List.takeWhile_cons_of_pos rfl]
    simp only [List.cons_ne_nil, if_false]
    exact congrArg (Option.map _) hread

theorem Bare.exists_head (h : Bare url title) (rest : List Letter) : ∃ c r, isGap (c, false) = false ∧ c ≠ '<' ∧
    plain url ++ (titleLetters title ++ (')', false) :: rest) = (c, false) :: r := by
  cases url with
  | cons c u => exact ⟨c, _, isGap_eq_false (Bool.or_eq_false_iff.1 h.ends).1, fun hc => h.head (congrArg some hc), rfl⟩
  | nil =>
    cases title with
    | none => exact ⟨')', rest, by decide, by decide, rfl⟩
    | some t => exact absurd rfl (h.ne_nil rfl)

theorem readTail_tailLetters (h : Bare url title) (hline : ∀ t, title = some t → t.any endsLine = false)
    (rest : List Letter) : readTail (tailLetters url title ++ (')', false) :: rest) = some (url, title, rest) := by
  have htail : tailLetters url title ++ (')', false) :: rest =
      ('(', false) :: (plain url ++ (titleLetters title ++ (')', false) :: rest)) := by
    simp [tailLetters]
  obtain ⟨c, r, hgap, hbracket, hfirst⟩ := h.exists_head rest
  obtain ⟨x, r', hx, hafter⟩ := exists_head_after title rest
  have hplain : readPlain 0 ((c, false) :: r) = some (url, titleLetters title ++ (')', false) :: rest) := by
    rw [← hfirst, hafter]
    exact (readPlain_eq_some_iff hx).2 ⟨h.ends, h.balanced⟩
  have hdestination : readDestination ((c, false) :: r) = readPlain 0 ((c, false) :: r) :=
    readDestination_of_ne (by simpa using hbracket)
  rw [htail, hfirst, readTail, List.dropWhile_cons_of_neg (by simp [hgap]), hdestination, hplain, Option.bind_some]
  dsimp only
  rw [readTitle_titleLetters hline, Option.bind_some]
  rfl

structure ReadsBack (url : List Char) (title : Option (List Char)) : Prop extends Bare url title where
  url_literal : Literal (url ++ [if title.isSome then ' ' else ')'])
  title_literal : ∀ t, title = some t → Literal (t ++ ['\x22'])

theorem letters_linkTail_iff (url : String) (title : Option String) (after : String) :
    letters (linkTail url title ++ after).toList =
        tailLetters url.toList (title.map String.toList) ++ (')', false) :: letters after.toList ↔
      Unjoined (tailLetters url.toList (title.map String.toList) ++ [(')', false)]) := by
  rw [← letters_raw_iff isAsciiPunct_of_mem_tailLetters after.toList, String.toList_append, linkTail_eq_raw,
    List.append_assoc, List.singleton_append, letters_cons fun h => absurd h (by decide)]

theorem readLinkTail_eq_some {s url : String} {title : Option String} : readLinkTail s = some (url, title) ↔
    readTail (letters s.toList) = some (url.toList, title.map String.toList, []) := by
  have htitle (t : Option (List Char)) : t.map String.ofList = title ↔ t = title.map String.toList := by
    cases t <;> cases title <;> simp [String.ofList_eq]
  unfold readLinkTail
  split
  · next u t h => simp [h, htitle, String.ofList_eq]
  · next h => exact iff_of_false (by simp) fun hread => h _ _ hread

/-- A tail is read back if and only if its destination can stand without brackets, with its parentheses in pairs, and
no backslash in the destination or the title stands before punctuation. -/
theorem readLinkTail_iff (url : String) (title : Option String)
    (hline : ∀ t, title = some t → t.toList.any endsLine = false) :
    (readLinkTail (linkTail url title) = some (url, title) ↔ ReadsBack url.toList (title.map String.toList)) ∧
    (ReadsBack url.toList (title.map String.toList) → ∀ after : String,
      readTail (letters (linkTail url title ++ after).toList) =
        some (url.toList, title.map String.toList, letters after.toList)) ∧
    ∀ n : Node, (n.data.str? "url").getD "" = url → n.data.str? "title" = title →
      (n.kind = .link → inline n = "[" ++ inlines n.childList ++ "]" ++ linkTail url title) ∧
      (n.kind = .image → inline n = "![" ++ escape ((n.data.str? "alt").getD "") ++ "]" ++ linkTail url title) := by
  have hback (h : ReadsBack url.toList (title.map String.toList)) (after : String) :
      readTail (letters (linkTail url title ++ after).toList) =
        some (url.toList, title.map String.toList, letters after.toList) := by
    have hletters := (letters_linkTail_iff url title after).2
      (unjoined_tailLetters.2 ⟨h.url_literal, h.title_literal⟩)
    rw [hletters]
    refine readTail_tailLetters h.toBare ?_ _
    simpa using hline
  refine ⟨?_, hback, ?_⟩
  · rw [readLinkTail_eq_some]
    constructor
    · intro h
      have hraw : raw (letters (linkTail url title).toList) =
          raw (tailLetters url.toList (title.map String.toList) ++ [(')', false)]) := by
        rw [raw_letters, linkTail_eq_raw, raw_append]
        rfl
      obtain ⟨hletters, hbare⟩ := bare_of_readTail h hraw
      have hwhole := (letters_linkTail_iff url title "").1 (by simpa [letters] using hletters)
      exact ⟨hbare, (unjoined_tailLetters.1 hwhole).1, (unjoined_tailLetters.1 hwhole).2⟩
    · intro h
      have hend := hback h ""
      rwa [String.append_empty] at hend
  · rintro n rfl rfl
    refine ⟨fun hk => ?_, fun hk => ?_⟩ <;> rw [inline_eq, hk, tailOf]

/-- A destination with parentheses, and a title with quotes. -/
theorem readLinkTail_parentheses :
    (∀ t, some "say \"x\"" = some t → t.toList.any endsLine = false) ∧
    linkTail "/a(b)" (some "say \"x\"") = "(/a(b) \"say \\\"x\\\"\")" ∧
    readLinkTail "(/a(b) \"say \\\"x\\\"\")" = some ("/a(b)", some "say \"x\"") := by
  have hline : ∀ t, some "say \"x\"" = some t → t.toList.any endsLine = false := by
    intro t ht
    obtain rfl := Option.some.inj ht
    decide
  have htail : linkTail "/a(b)" (some "say \"x\"") = "(/a(b) \"say \\\"x\\\"\")" := by decide +kernel
  have htitle : ∀ t, some "say \"x\"".toList = some t → Literal (t ++ ['\x22']) := by
    intro t ht
    obtain rfl := Option.some.inj ht
    decide
  have hback : ReadsBack "/a(b)".toList (some "say \"x\"".toList) :=
    ⟨⟨by decide, by decide, by decide, by decide⟩, by decide, htitle⟩
  exact ⟨hline, htail, htail ▸ (readLinkTail_iff "/a(b)" (some "say \"x\"") hline).1.2 hback⟩

/-- A backslash at the end of a title is written as it stands, and the quote after it does not end the title. -/
theorem not_forall_readLinkTail :
    ¬ ∀ (url : String) (title : Option String), url.toList.any endsLine = false →
      (∀ t, title = some t → t.toList.any endsLine = false) →
      readLinkTail (linkTail url title) = some (url, title) := by
  intro h
  have hread := h "u" (some "a\\") (by decide) (by simp; decide)
  exact absurd hread (by decide +kernel)

end RichDoc.Writer
