import RichDoc.Content.Basic
import RichDoc.Text.Class

/-! # Reading content expressions

`Content.read` takes a text apart into words and signs and folds them into an expression. A quantifier
follows what it repeats: `*`, `+`, `?`, or a range in braces. Words are of the letters and digits of an alphabet. -/

namespace RichDoc

/-- A word or a sign of a content expression. -/
inductive ContentToken where
  | word (w : String)
  | sign (c : Char)
deriving DecidableEq, Repr

namespace ContentToken

def text : ContentToken → String
  | word w => w
  | sign c => String.singleton c

/-- The characters that stand for themselves. -/
def isSign (c : Char) : Bool := ['(', ')', '|', '*', '+', '?', '\x7b', '\x7d', ','].contains c

def isWordChar (alphabet : Text.Alphabet) (c : Char) : Bool := alphabet.has c || c == '_'

/-- The words and signs of a text; `w` is the word being read, in reverse. -/
def scan (alphabet : Text.Alphabet) : List Char → List Char → Except ContentError (List ContentToken)
  | w, [] => .ok (close w [])
  | w, c :: r =>
    if Text.isBlank c then (scan alphabet [] r).map (close w)
    else if isSign c then (scan alphabet [] r).map fun ts => close w (sign c :: ts)
    else if isWordChar alphabet c then scan alphabet (c :: w) r
    else .error (.unexpectedChar c)
where
  close (w : List Char) (ts : List ContentToken) : List ContentToken :=
    if w.isEmpty then ts else word (String.ofList w.reverse) :: ts

/-- The number that a word of digits writes, if it fits 64 bits. -/
def number? : ContentToken → Option UInt64
  | word w =>
    if w.toList.all Char.isDigit then
      let n := w.toList.foldl (fun n c => 10 * n + (c.toNat - '0'.toNat)) 0
      if n < UInt64.size then some (.ofNat n) else none
    else none
  | sign _ => none

end ContentToken

namespace Content
open ContentToken

/-- A number at the front of the tokens, and the rest. -/
def readNumber : List ContentToken → Except ContentError (UInt64 × List ContentToken)
  | [] => .error (.expectedNumber "")
  | t :: r => match t.number? with
    | some n => .ok (n, r)
    | none => .error (.expectedNumber t.text)

/-- The bounds of a range whose opening brace has been read, and what follows its closing brace. -/
def readRange (ts : List ContentToken) : Except ContentError (UInt64 × Option UInt64 × List ContentToken) := do
  let (least, ts) ← readNumber ts
  match ts with
  | .sign '\x7d' :: r => .ok (least, some least, r)
  | .sign ',' :: .sign '\x7d' :: r => .ok (least, none, r)
  | .sign ',' :: ts =>
    let (most, ts) ← readNumber ts
    match ts with
    | .sign '\x7d' :: r => .ok (least, some most, r)
    | _ => .error .unclosedRange
  | t :: _ => .error (.unexpectedInRange t.text)
  | [] => .error (.unexpectedInRange "end")

theorem length_of_readNumber {ts r : List ContentToken} {n : UInt64} (h : readNumber ts = .ok (n, r)) :
    r.length < ts.length := by
  unfold readNumber at h
  split at h
  · simp at h
  · split at h
    · simp at h; simp [h.2]
    · simp at h

theorem length_of_readRange {ts r : List ContentToken} {a : UInt64} {b : Option UInt64}
    (h : readRange ts = .ok (a, b, r)) : r.length < ts.length := by
  unfold readRange at h
  cases h₁ : readNumber ts with
  | error e => simp [h₁, bind, Except.bind] at h
  | ok p =>
    obtain ⟨n, ts₁⟩ := p
    have l₁ := length_of_readNumber h₁
    simp only [h₁, bind, Except.bind] at h
    split at h
    · simp at h; simp_all; omega
    · simp at h; simp_all; omega
    · rename_i ts₂ _
      cases h₂ : readNumber ts₂ with
      | error e => simp [h₂] at h
      | ok q =>
        obtain ⟨m, ts₃⟩ := q
        have l₂ := length_of_readNumber h₂
        simp only [h₂] at h
        split at h
        · simp at h; simp_all; omega
        · simp at h
    · simp at h
    · simp at h

/-- A choice being read: the finished alternatives and the items of the open one, both in reverse. -/
structure Group where
  done : List Content
  items : List Content

namespace Group

/-- The items so far as one alternative; there has to be one. -/
def alternative (g : Group) : Except ContentError Content :=
  if g.items.isEmpty then .error .expectedName else .ok (sequence g.items.reverse)

/-- The group as one expression. -/
def close (g : Group) : Except ContentError Content := do
  return alternatives (g.done.reverse ++ [← g.alternative])

def push (g : Group) (c : Content) : Group := { g with items := c :: g.items }

end Group

/-- Reads on inside the group `g`, with the groups around it in `outer`, innermost first. -/
def readGroup (outer : List Group) (g : Group) (ts : List ContentToken) : Except ContentError Content :=
  match ts with
  | [] => do
    let c ← g.close
    if outer.isEmpty then .ok c else .error .missingParen
  | .word w :: r => readGroup outer (g.push (.name w)) r
  | .sign '(' :: r => readGroup (g :: outer) ⟨[], []⟩ r
  | .sign ')' :: r => do
    let c ← g.close
    match outer with
    | [] => .error (.unexpected ")")
    | up :: outer => readGroup outer (up.push c) r
  | .sign '|' :: r => do
    let c ← g.alternative
    readGroup outer ⟨c :: g.done, []⟩ r
  | .sign s :: r =>
    match g.items with
    | [] => .error (.unexpected (String.singleton s))
    | c :: items =>
      match s with
      | '*' => readGroup outer { g with items := .repeated c 0 none :: items } r
      | '+' => readGroup outer { g with items := .repeated c 1 none :: items } r
      | '?' => readGroup outer { g with items := .repeated c 0 (some 1) :: items } r
      | '\x7b' =>
        match h : readRange r with
        | .ok (least, most, r') =>
          have := length_of_readRange h
          readGroup outer { g with items := .repeated c least most :: items } r'
        | .error e => .error e
      | _ => .error (.unexpected (String.singleton s))
termination_by ts.length

/-- The content expression that a text writes; a text without words and signs is the empty sequence. -/
def read (s : String) (alphabet : Text.Alphabet := .unicode) : Except ContentError Content := do
  match ← ContentToken.scan alphabet [] s.toList with
  | [] => .ok (.seq [])
  | ts => readGroup [] ⟨[], []⟩ ts

end Content
end RichDoc
