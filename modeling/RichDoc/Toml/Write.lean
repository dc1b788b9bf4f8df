import RichDoc.Text.Lines
import RichDoc.Toml.Basic

/-! # Writing TOML

`Toml.writeText` takes the quotes that need the fewest escapes: double quotes if nothing has to be escaped, then
single quotes, then three of either, then double quotes with escapes. `Toml.writeTexts` puts each of several texts
on its own line. -/

namespace RichDoc.Toml

/-- A control character that only an escape can write. -/
def needsEscape (c : Char) : Bool := isControl c && c != '\n'

/-- A code unit in four hexadecimal digits. -/
def hex4 (n : Nat) : String :=
  let digits := Nat.toDigits 16 n
  Text.replicate (4 - digits.length) '0' ++ String.ofList (digits.map Char.toUpper)

/-- A character that is no quote, between double quotes; `multi` if line ends stand for themselves. -/
def writeChar (multi : Bool) (c : Char) : String :=
  match c.toNat with
  | 8 => "\\b"
  | 9 => "\\t"
  | 10 => if multi then "\n" else "\\n"
  | 12 => "\\f"
  | 13 => "\\r"
  | 0x5C => "\\\\"
  | n => if n < 0x20 || n == 0x7F then "\\u" ++ hex4 n else String.singleton c

/-- Text between double quotes, where at most `most` quotes may stand side by side; `run` quotes have just been
written. -/
def writeEscaped (multi : Bool) (most run : Nat) : List Char → String
  | [] => ""
  | c :: r =>
    if c = '\x22' then
      if run < most then "\"" ++ writeEscaped multi most (run + 1) r else "\\\"" ++ writeEscaped multi most 0 r
    else writeChar multi c ++ writeEscaped multi most 0 r

/-- Text between quotes. -/
def writeText (s : String) : String :=
  let cs := s.toList
  let control := cs.any needsEscape
  let backslash := cs.contains '\\'
  let newline := cs.contains '\n'
  let doubles := Text.longestRun '\x22' s
  let singles := Text.longestRun '\'' s
  let first := if newline then "\n" else ""
  let basic := "\"" ++ writeEscaped false 0 0 cs ++ "\""
  let basicLines := "\"\"\"" ++ first ++ writeEscaped true 2 0 cs ++ "\"\"\""
  if !control && !backslash && doubles == 0 && !newline then basic
  else if !control && singles == 0 && !newline then "'" ++ s ++ "'"
  else if !control && !backslash && doubles ≤ 2 then basicLines
  else if !control && singles ≤ 2 then "'''" ++ first ++ s ++ "'''"
  else if newline then basicLines
  else basic

/-- A list of texts. -/
def writeTexts : List String → String
  | [] => "[]"
  | [s] => "[" ++ writeText s ++ "]"
  | ss => "[\n" ++ String.join (ss.map fun s => "    " ++ writeText s ++ ",\n") ++ "]"

end RichDoc.Toml
