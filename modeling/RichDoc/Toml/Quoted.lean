import RichDoc.Text.Entity
import RichDoc.Toml.Basic

/-! # Quoted text

Text stands between double quotes, where a backslash escapes, or between single quotes, where nothing does.
Three quotes open text of several lines; a line end right after them does not count. Each reader starts behind
the opening quotes and gives the text and what follows the closing ones. -/

namespace RichDoc.Toml

/-- The character of a code point that is no surrogate, in hexadecimal digits. -/
def charOf? (ds : List Char) : Option Char :=
  if ds.all fun d => (Text.hexDigit? d).isSome then
    let n := Text.ofHex ds
    if n.isValidChar then some (Char.ofNat n) else none
  else none

/-- The escapes of one letter. -/
def letterEscape? (c : Char) : Option Char :=
  match c with
  | 'b' => some (Char.ofNat 8)
  | 't' => some '\t'
  | 'n' => some '\n'
  | 'f' => some (Char.ofNat 12)
  | 'r' => some '\r'
  | 'e' => some (Char.ofNat 0x1B)
  | '\x22' => some '\x22'
  | '\\' => some '\\'
  | _ => none

/-- The hexadecimal digits that follow the letter of a numbered escape. -/
def escapeDigits (c : Char) : Nat :=
  match c with
  | 'x' => 2
  | 'u' => 4
  | 'U' => 8
  | _ => 0

/-- What follows a backslash: the character, and how much of the text it takes. -/
def escape? : List Char → Option (Char × Nat)
  | [] => none
  | c :: r =>
    match escapeDigits c with
    | 0 => (letterEscape? c).map (·, 1)
    | n => if n ≤ r.length then (charOf? (r.take n)).map (·, n + 1) else none

/-- Text between double quotes, with `out` read already, last character first. -/
def basic? : Nat → List Char → List Char → Option (String × List Char)
  | 0, _, _ => none
  | fuel + 1, out, cs =>
    match cs with
    | [] => none
    | '\x22' :: r => some (String.ofList out.reverse, r)
    | '\\' :: r =>
      match escape? r with
      | some (c, n) => basic? fuel (c :: out) (r.drop n)
      | none => none
    | c :: r => if isControl c then none else basic? fuel (c :: out) r

/-- Text between single quotes. -/
def literal? (out : List Char) : List Char → Option (String × List Char)
  | [] => none
  | '\'' :: r => some (String.ofList out.reverse, r)
  | c :: r => if isControl c then none else literal? (c :: out) r

/-- The closing quotes of text of several lines: up to two more before them belong to the text. -/
def closing? (q : Char) (cs : List Char) : Option (Nat × List Char) :=
  let n := (cs.takeWhile (· == q)).length
  if n < 3 then none else
  let extra := min (n - 3) 2
  some (extra, cs.drop (extra + 3))

/-- What is left when a backslash ends a line: the text from the next character on that is no blank and no line
end. -/
def afterLineEnd? (cs : List Char) : Option (List Char) := do
  let r ← newline? (cs.dropWhile isBlank)
  some (r.dropWhile fun c => isBlank c || c == '\n' || c == '\r')

/-- Text of several lines, `q` being the quote. -/
def lines? (q : Char) : Nat → List Char → List Char → Option (String × List Char)
  | 0, _, _ => none
  | fuel + 1, out, cs =>
    match closing? q cs with
    | some (extra, r) => some (String.ofList (out.reverse ++ List.replicate extra q), r)
    | none =>
      match newline? cs with
      | some r => lines? q fuel ((cs.take (cs.length - r.length)).reverse ++ out) r
      | none =>
        match cs with
        | [] => none
        | c :: r =>
          if c == '\\' && q == '\x22' then
            match escape? r, afterLineEnd? r with
            | some (e, n), _ => lines? q fuel (e :: out) (r.drop n)
            | none, some r => lines? q fuel out r
            | none, none => none
          else if isControl c then none
          else lines? q fuel (c :: out) r

/-- Quoted text of any form. -/
def quoted? (cs : List Char) : Option (String × List Char) :=
  let fuel := cs.length + 1
  match cs with
  | '\x22' :: '\x22' :: '\x22' :: r => lines? '\x22' fuel [] ((newline? r).getD r)
  | '\'' :: '\'' :: '\'' :: r => lines? '\'' fuel [] ((newline? r).getD r)
  | '\x22' :: r => basic? fuel [] r
  | '\'' :: r => literal? [] r
  | _ => none

/-- Quoted text on one line, as keys have it. -/
def quotedLine? (cs : List Char) : Option (String × List Char) :=
  match cs with
  | '\x22' :: r => basic? (cs.length + 1) [] r
  | '\'' :: r => literal? [] r
  | _ => none

end RichDoc.Toml
