import RichDoc.Json.Basic
import RichDoc.StringMap
import RichDoc.Text.Entity

/-! # Reading JSON

`Json.parse?` reads one value and the blanks around it. The entries of an object come out in the
order of their keys, the last of several with one key. An integer outside the signed and unsigned
64-bit ranges, and minus nought, is a decimal. -/

namespace RichDoc.Json.Read

/-- The four blanks of JSON. -/
def blank (c : Char) : Bool := c == ' ' || c == '\t' || c == '\n' || c == '\r'

def skip (cs : List Char) : List Char := cs.dropWhile blank

/-- The number a run of digits stands for. -/
def ofDigits (ds : List Char) : Nat := ds.foldl (fun n c => 10 * n + (c.toNat - 0x30)) 0

/-- Decimals with no nought at the end of their digits, so that equal numbers are equal. -/
def normal : Nat → Bool → Nat → Int → Decimal
  | 0, neg, n, e => ⟨neg, n, e⟩
  | k + 1, neg, n, e =>
    if n = 0 then ⟨neg, 0, 0⟩ else if n % 10 = 0 then normal k neg (n / 10) (e + 1) else ⟨neg, n, e⟩

/-- `± n · 10 ^ e`. -/
def decimal (neg : Bool) (n : Nat) (e : Int) : Json := .real (normal (n.log2 + 1) neg n e)

/-- A signed integer if it fits a word. -/
def integer (neg : Bool) (n : Nat) : Json :=
  if neg then if n = 0 ∨ UInt64.size < 2 * n then decimal true n 0 else .int (-n)
  else if n < UInt64.size then .int n else decimal false n 0

/-- The exponent that may follow the digits of a number. -/
def exponent : List Char → Option (Option Int × List Char)
  | c :: r =>
    if c == 'e' || c == 'E' then
      let (neg, r) := match r with
        | '-' :: r => (true, r)
        | '+' :: r => (false, r)
        | r => (false, r)
      match r.takeWhile Char.isDigit with
      | [] => none
      | ds => some (some (if neg then -(ofDigits ds : Int) else ofDigits ds), r.dropWhile Char.isDigit)
    else some (none, c :: r)
  | [] => some (none, [])

/-- A number whose sign has been read. -/
def number (neg : Bool) (cs : List Char) : Option (Json × List Char) :=
  let whole := cs.takeWhile Char.isDigit
  let r := cs.dropWhile Char.isDigit
  if whole.isEmpty then none else
  match r with
  | '.' :: r =>
    let places := r.takeWhile Char.isDigit
    if places.isEmpty then none else do
      let (e, r) ← exponent (r.dropWhile Char.isDigit)
      some (decimal neg (ofDigits (whole ++ places)) (e.getD 0 - places.length), r)
  | r => do
    match ← exponent r with
    | (some e, r) => some (decimal neg (ofDigits whole) e, r)
    | (none, r) => some (integer neg (ofDigits whole), r)

/-- Four hexadecimal digits. -/
def hex4 : List Char → Option (Nat × List Char)
  | a :: b :: c :: d :: r => do
    let a ← Text.hexDigit? a
    let b ← Text.hexDigit? b
    let c ← Text.hexDigit? c
    let d ← Text.hexDigit? d
    some (((a * 16 + b) * 16 + c) * 16 + d, r)
  | _ => none

/-- The escapes of one letter. -/
def escape? (c : Char) : Option Char :=
  match c with
  | '\x22' => some '\x22'
  | '\\' => some '\\'
  | '/' => some '/'
  | 'b' => some (Char.ofNat 8)
  | 'f' => some (Char.ofNat 12)
  | 'n' => some '\n'
  | 'r' => some '\r'
  | 't' => some '\t'
  | _ => none

/-- The rest of a string after its opening quote, with `out` read already, last character first. -/
def string : Nat → List Char → List Char → Option (String × List Char)
  | 0, _, _ => none
  | fuel + 1, out, cs =>
    match cs with
    | [] => none
    | '\x22' :: r => some (String.ofList out.reverse, r)
    | '\\' :: 'u' :: r =>
      match hex4 r with
      | none => none
      | some (hi, r) =>
        if 0xD800 ≤ hi ∧ hi < 0xDC00 then
          match r with
          | '\\' :: 'u' :: r =>
            match hex4 r with
            | none => none
            | some (lo, r) =>
              string fuel (Char.ofNat (0x10000 + (hi - 0xD800) * 0x400 + (lo - 0xDC00)) :: out) r
          | _ => none
        else string fuel (Char.ofNat hi :: out) r
    | '\\' :: c :: r =>
      match escape? c with
      | some c => string fuel (c :: out) r
      | none => none
    | c :: r => string fuel (c :: out) r

/-- Drops `word` from the front of the text. -/
def literal (word : String) (v : Json) (cs : List Char) : Option (Json × List Char) :=
  if word.toList.isPrefixOf cs then some (v, cs.drop word.length) else none

mutual
/-- A value, at the first character that is no blank. -/
def value : Nat → List Char → Option (Json × List Char)
  | 0, _ => none
  | fuel + 1, cs =>
    match skip cs with
    | [] => none
    | '\x22' :: r => (string (r.length + 1) [] r).map fun p => (.str p.1, p.2)
    | '[' :: r =>
      match skip r with
      | ']' :: r => some (.arr [], r)
      | r => items fuel [] r
    | '\x7b' :: r =>
      match skip r with
      | '\x7d' :: r => some (.obj [], r)
      | r => entries fuel .empty r
    | '-' :: r => number true r
    | 't' :: r => literal "true" (.bool true) ('t' :: r)
    | 'f' :: r => literal "false" (.bool false) ('f' :: r)
    | 'n' :: r => literal "null" .null ('n' :: r)
    | r => number false r

/-- The items of a list from the next one on. -/
def items : Nat → List Json → List Char → Option (Json × List Char)
  | 0, _, _ => none
  | fuel + 1, out, cs =>
    match value fuel cs with
    | none => none
    | some (v, r) =>
      match skip r with
      | ',' :: r => items fuel (v :: out) r
      | ']' :: r => some (.arr (v :: out).reverse, r)
      | _ => none

/-- The entries of an object from the next one on. -/
def entries : Nat → StringMap Json → List Char → Option (Json × List Char)
  | 0, _, _ => none
  | fuel + 1, out, cs =>
    match skip cs with
    | '\x22' :: r =>
      match string (r.length + 1) [] r with
      | none => none
      | some (k, r) =>
        match skip r with
        | ':' :: r =>
          match value fuel r with
          | none => none
          | some (v, r) =>
            match skip r with
            | ',' :: r => entries fuel (out.insert k v) r
            | '\x7d' :: r => some (.obj (out.insert k v).entries, r)
            | _ => none
        | _ => none
    | _ => none
end

end Read

/-- The value a text holds, if it holds just one. -/
def parse? (s : String) : Option Json :=
  let cs := s.toList
  match Read.value (cs.length + 1) cs with
  | some (v, r) => if (Read.skip r).isEmpty then some v else none
  | none => none

end RichDoc.Json
