import RichDoc.Json.Basic
import RichDoc.Text.Lines

/-! # Writing JSON

`compact` leaves no blanks; `pretty` breaks lines and indents by two blanks, an empty list or object
staying on its line. Both write the entries of an object in the order they have. -/

namespace RichDoc

/-- Decimals are written with at least one place; more than sixteen digits before the point, or
five noughts after it, call for an exponent. -/
def Decimal.write (d : Decimal) : String :=
  let sign := if d.negative then "-" else ""
  if d.digits = 0 then sign ++ "0.0" else
  let ds := toString d.digits
  let n := ds.length
  let point : Int := n + d.scale
  let tail := fun (k : Nat) => String.ofList (ds.toList.drop k)
  let head := fun (k : Nat) => String.ofList (ds.toList.take k)
  sign ++
    if 0 ≤ d.scale ∧ point ≤ 16 then ds ++ Text.replicate d.scale.toNat '0' ++ ".0"
    else if 0 < point ∧ point ≤ 16 then head point.toNat ++ "." ++ tail point.toNat
    else if -5 < point ∧ point ≤ 0 then "0." ++ Text.replicate (-point).toNat '0' ++ ds
    else if n = 1 then ds ++ "e" ++ toString (point - 1)
    else head 1 ++ "." ++ tail 1 ++ "e" ++ toString (point - 1)

namespace Json

/-- The lower-case hexadecimal digit of `n`. -/
def hexDigit (n : Nat) : Char := if n < 10 then Char.ofNat (0x30 + n) else Char.ofNat (0x57 + n)

/-- One character of a string; only quotes, backslashes and control characters are escaped. -/
def writeChar (c : Char) : List Char :=
  match c.toNat with
  | 0x22 => ['\\', '\x22']
  | 0x5C => ['\\', '\\']
  | 8 => ['\\', 'b']
  | 9 => ['\\', 't']
  | 10 => ['\\', 'n']
  | 12 => ['\\', 'f']
  | 13 => ['\\', 'r']
  | n => if n < 0x20 then ['\\', 'u', '0', '0', hexDigit (n / 16), hexDigit (n % 16)] else [c]

/-- A string between quotes. -/
def writeString (s : String) : String :=
  "\"" ++ String.ofList (s.toList.flatMap writeChar) ++ "\""

mutual
/-- The value without blanks. -/
def compact : Json → String
  | null => "null"
  | bool b => if b then "true" else "false"
  | int n => toString n
  | real d => d.write
  | str s => writeString s
  | arr items => "[" ++ compactItems items ++ "]"
  | obj entries => "\x7b" ++ compactEntries entries ++ "\x7d"

/-- The items with commas between them. -/
def compactItems : List Json → String
  | [] => ""
  | [v] => compact v
  | v :: r => compact v ++ "," ++ compactItems r

/-- The entries with commas between them. -/
def compactEntries : List (String × Json) → String
  | [] => ""
  | [(k, v)] => writeString k ++ ":" ++ compact v
  | (k, v) :: r => writeString k ++ ":" ++ compact v ++ "," ++ compactEntries r
end

/-- A new line indented to `depth`. -/
def newline (depth : Nat) : String := "\n" ++ Text.replicate (2 * depth) ' '

mutual
/-- The value over several lines, its first at `depth`. -/
def prettyAt (depth : Nat) : Json → String
  | arr [] => "[]"
  | arr (v :: r) => "[" ++ prettyItems (depth + 1) (v :: r) ++ newline depth ++ "]"
  | obj [] => "\x7b\x7d"
  | obj (e :: r) => "\x7b" ++ prettyEntries (depth + 1) (e :: r) ++ newline depth ++ "\x7d"
  | v => compact v

/-- The items, each on its own line. -/
def prettyItems (depth : Nat) : List Json → String
  | [] => ""
  | [v] => newline depth ++ prettyAt depth v
  | v :: r => newline depth ++ prettyAt depth v ++ "," ++ prettyItems depth r

/-- The entries, each on its own line. -/
def prettyEntries (depth : Nat) : List (String × Json) → String
  | [] => ""
  | [(k, v)] => newline depth ++ writeString k ++ ": " ++ prettyAt depth v
  | (k, v) :: r =>
    newline depth ++ writeString k ++ ": " ++ prettyAt depth v ++ "," ++ prettyEntries depth r
end

/-- The value over several lines. -/
def pretty (v : Json) : String := prettyAt 0 v

end Json
end RichDoc
