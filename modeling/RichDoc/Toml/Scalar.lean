import RichDoc.Text.Entity
import RichDoc.Text.Lines
import RichDoc.Toml.Basic

/-! # Numbers, dates and times

`Toml.scalar?` reads what is written without quotes: a truth value, a number, a date or a time. Digits may be
grouped by single underscores; a date or time has to exist. -/

namespace RichDoc.Toml

/-- Digits that satisfy `p`, with single underscores between some of them; the digits alone. -/
def grouped? (p : Char → Bool) (cs : List Char) : Option (List Char) :=
  let groups := Text.splitOnChar '_' cs
  if groups.all fun g => !g.isEmpty && g.all p then some groups.flatten else none

/-- A decimal numeral without superfluous noughts. -/
def decimal? (cs : List Char) : Option Nat := do
  let ds ← grouped? Char.isDigit cs
  if 1 < ds.length ∧ ds.head? = some '0' then none
  else some (ds.foldl (fun n c => 10 * n + (c.toNat - '0'.toNat)) 0)

/-- A numeral to the base that its second letter names. -/
def based? : List Char → Option Nat
  | '0' :: b :: cs => do
    let base ← match b with
      | 'x' => some 16
      | 'o' => some 8
      | 'b' => some 2
      | _ => none
    let ds ← grouped? (fun c => (Text.hexDigit? c).any (· < base)) cs
    some (ds.foldl (fun n c => base * n + (Text.hexDigit? c).getD 0) 0)
  | _ => none

/-- Without its sign, and whether that is a minus. -/
def unsigned : List Char → Bool × List Char
  | '-' :: r => (true, r)
  | '+' :: r => (false, r)
  | r => (false, r)

/-- One more than the greatest number of 128 bits. -/
def numberEnd : Nat := UInt64.size * UInt64.size

/-- An integer of at most 128 bits. -/
def isInteger (cs : List Char) : Bool :=
  let (negative, r) := unsigned cs
  ((based? cs).any (· < numberEnd)) ||
    (decimal? r).any fun n => if negative then 2 * n ≤ numberEnd else n < numberEnd

/-- The exponent of a decimal fraction. -/
def isExponent (cs : List Char) : Bool := (grouped? Char.isDigit (unsigned cs).2).isSome

/-- A number with places, with an exponent or with both, or one that is none. -/
def isFraction (cs : List Char) : Bool :=
  let (_, r) := unsigned cs
  if r == "inf".toList || r == "nan".toList then true
  else
    let isE (c : Char) : Bool := c == 'e' || c == 'E'
    let mantissa := r.takeWhile (!isE ·)
    let exponent := r.dropWhile (!isE ·)
    let whole := mantissa.takeWhile (· != '.')
    let places := mantissa.dropWhile (· != '.')
    (decimal? whole).isSome && !(places.isEmpty && exponent.isEmpty) &&
      (places.isEmpty || (grouped? Char.isDigit (places.drop 1)).isSome) &&
      (exponent.isEmpty || isExponent (exponent.drop 1))

/-- A number of two digits that is at most `most`. -/
def twoDigits? (most : Nat) : List Char → Option (Nat × List Char)
  | a :: b :: r =>
    if a.isDigit && b.isDigit then
      let n := 10 * (a.toNat - '0'.toNat) + (b.toNat - '0'.toNat)
      if n ≤ most then some (n, r) else none
    else none
  | _ => none

/-- The number of days in a month. -/
def daysIn (year month : Nat) : Nat :=
  if month = 2 then
    if (year % 4 = 0 ∧ year % 100 ≠ 0) ∨ year % 400 = 0 then 29 else 28
  else if month = 4 ∨ month = 6 ∨ month = 9 ∨ month = 11 then 30 else 31

/-- A date at the front of the text, and what follows it. -/
def date? (cs : List Char) : Option (List Char) := do
  let (century, r) ← twoDigits? 99 cs
  let (year, r) ← twoDigits? 99 r
  let r ← if r.head? = some '-' then some (r.drop 1) else none
  let (month, r) ← twoDigits? 12 r
  let r ← if r.head? = some '-' then some (r.drop 1) else none
  let (day, r) ← twoDigits? (daysIn (100 * century + year) month) r
  if month = 0 ∨ day = 0 then none else some r

/-- A time at the front of the text, and what follows it. -/
def clock? (cs : List Char) : Option (List Char) := do
  let (_, r) ← twoDigits? 23 cs
  let r ← if r.head? = some ':' then some (r.drop 1) else none
  let (_, r) ← twoDigits? 59 r
  match r with
  | ':' :: r =>
    let (_, r) ← twoDigits? 60 r
    match r with
    | '.' :: r => if r.head?.any Char.isDigit then some (r.dropWhile Char.isDigit) else none
    | r => some r
  | r => some r

/-- The distance from universal time, up to the end. -/
def isOffset : List Char → Bool
  | [] => true
  | ['Z'] | ['z'] => true
  | c :: r => (c == '+' || c == '-') && (do
      let (_, r) ← twoDigits? 23 r
      let r ← if r.head? = some ':' then some (r.drop 1) else none
      let (_, r) ← twoDigits? 59 r
      some r) == some []

/-- A date, a time, or both. -/
def isTime (cs : List Char) : Bool :=
  match date? cs with
  | some [] => true
  | some (c :: r) => (c == 'T' || c == 't' || c == ' ') && (clock? r).any isOffset
  | none => clock? cs == some []

/-- A value that is written without quotes. -/
def scalar? (cs : List Char) : Option Toml :=
  if cs == "true".toList then some (.bool true)
  else if cs == "false".toList then some (.bool false)
  else if isInteger cs || isFraction cs then some (.number (String.ofList cs))
  else if isTime cs then some (.time (String.ofList cs))
  else none

end RichDoc.Toml
