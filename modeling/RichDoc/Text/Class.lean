import RichDoc.Text.Ranges

/-! # Classes of characters

`isBlank`: Unicode white space. `isWord`: letters, digits and the other alphabetic or numeric
characters. `isPunct`: punctuation and symbols. On ASCII each is decided without a table. Which characters are
alphanumeric grows from one version of Unicode to the next; `Alphabet` is what all of them have in common. -/

namespace RichDoc.Text

/-- Unicode white space. -/
def isBlank (c : Char) : Bool :=
  let n := c.toNat
  (9 ≤ n && n ≤ 13) || n == 0x20 || n == 0x85 || n == 0xA0 || n == 0x1680 ||
    (0x2000 ≤ n && n ≤ 0x200A) || n == 0x2028 || n == 0x2029 || n == 0x202F || n == 0x205F ||
    n == 0x3000

/-- Alphabetic or numeric. -/
def isWord (c : Char) : Bool :=
  if c.toNat < 0x80 then c.isAlphanum else inRanges wordRanges c.toNat

/-- The alphanumeric characters of a version of Unicode. -/
structure Alphabet where
  has : Char → Bool
  has_ascii : ∀ c : Char, c.toNat < 0x80 → has c = c.isAlphanum
  has_blank : ∀ c : Char, isBlank c → has c = false

theorem isWord_of_isBlank {c : Char} (h : isBlank c) : isWord c = false := by
  have hmem : c.toNat ∈ List.range' 9 5 ++ List.range' 0x2000 11 ++
      [0x20, 0x85, 0xA0, 0x1680, 0x2028, 0x2029, 0x202F, 0x205F, 0x3000] := by
    simp only [isBlank, Bool.or_eq_true, Bool.and_eq_true, decide_eq_true_eq, beq_iff_eq] at h
    simp only [List.mem_append, List.mem_range'_1, List.mem_cons]
    omega
  have hall : ∀ n ∈ List.range' 9 5 ++ List.range' 0x2000 11 ++
      [0x20, 0x85, 0xA0, 0x1680, 0x2028, 0x2029, 0x202F, 0x205F, 0x3000], isWord (Char.ofNat n) = false := by
    decide +kernel
  rw [← Char.ofNat_toNat c]
  exact hall _ hmem

/-- The alphanumeric characters of Unicode 16. -/
def Alphabet.unicode : Alphabet where
  has := isWord
  has_ascii _ h := if_pos h
  has_blank _ h := isWord_of_isBlank h

/-- ASCII punctuation: every printing ASCII character that is no letter, digit or space. -/
def isAsciiPunct (c : Char) : Bool :=
  let n := c.toNat
  (0x21 ≤ n && n ≤ 0x2F) || (0x3A ≤ n && n ≤ 0x40) || (0x5B ≤ n && n ≤ 0x60) || (0x7B ≤ n && n ≤ 0x7E)

/-- Punctuation or a symbol. -/
def isPunct (c : Char) : Bool :=
  if c.toNat < 0x80 then isAsciiPunct c else inRanges punctuationRanges c.toNat

end RichDoc.Text
