import RichDoc.Toml.Quoted
import RichDoc.Toml.Scalar
import RichDoc.Toml.Table

/-! # Reading TOML

`Toml.read?` reads a whole text: lines that give a key its value, headers that open tables, and comments. Lists
and tables in braces may run over several lines and end with a comma. -/

namespace RichDoc.Toml

/-- Skips blanks, line ends and comments; `comment` in the middle of one. -/
def skipLines (comment : Bool) : List Char → Option (List Char)
  | [] => some []
  | '\n' :: r => skipLines false r
  | '\r' :: '\n' :: r => skipLines false r
  | c :: r =>
    if comment then if isControl c then none else skipLines true r
    else if isBlank c then skipLines false r
    else if c == '#' then skipLines true r
    else some (c :: r)

/-- Skips the rest of a line, in which only a comment may stand; `comment` in the middle of it. -/
def endLine (comment : Bool) : List Char → Option (List Char)
  | [] => some []
  | '\n' :: r => some r
  | '\r' :: '\n' :: r => some r
  | c :: r =>
    if comment then if isControl c then none else endLine true r
    else if isBlank c then endLine false r
    else if c == '#' then endLine true r
    else none

/-- The characters of a key without quotes. -/
def isKeyChar (c : Char) : Bool := c.isAlphanum || c == '-' || c == '_'

/-- One part of a key. -/
def keyPart? (cs : List Char) : Option (String × List Char) :=
  match cs.takeWhile isKeyChar with
  | [] => quotedLine? cs
  | k => some (String.ofList k, cs.dropWhile isKeyChar)

/-- A key with its parts, and what follows it and the blanks behind it. -/
def key? : Nat → List Char → Option (List String × List Char)
  | 0, _ => none
  | fuel + 1, cs => do
    let (k, r) ← keyPart? (cs.dropWhile isBlank)
    match r.dropWhile isBlank with
    | '.' :: r =>
      let (ks, r) ← key? fuel r
      some (k :: ks, r)
    | r => some ([k], r)

/-- The characters of a value without quotes. -/
def isBareChar (c : Char) : Bool := c.isAlphanum || c == '+' || c == '-' || c == '_' || c == '.' || c == ':'

/-- A value without quotes; a blank may stand between a date and a time. -/
def bare? (cs : List Char) : Option (Toml × List Char) :=
  let word := cs.takeWhile isBareChar
  let r := cs.dropWhile isBareChar
  match r with
  | ' ' :: c :: r' =>
    if date? word == some [] && c.isDigit then
      let clock := (c :: r').takeWhile isBareChar
      (scalar? (word ++ ' ' :: clock)).map (·, (c :: r').dropWhile isBareChar)
    else (scalar? word).map (·, r)
  | r => (scalar? word).map (·, r)

mutual
/-- A value. -/
def value? : Nat → List Char → Option (Toml × List Char)
  | 0, _ => none
  | fuel + 1, cs =>
    match cs with
    | '[' :: r => items? fuel [] r
    | '\x7b' :: r => (fields? fuel [] r).map fun p => (.table (closeAll p.1), p.2)
    | c :: _ =>
      if c == '\x22' || c == '\'' then (quoted? cs).map fun p => (.text p.1, p.2) else bare? cs
    | [] => none

/-- The items of a list from the next one on, or its end. -/
def items? : Nat → List Toml → List Char → Option (Toml × List Char)
  | 0, _, _ => none
  | fuel + 1, out, cs => do
    match ← skipLines false cs with
    | ']' :: r => some (.list out.reverse, r)
    | r =>
      let (v, r) ← value? fuel r
      match ← skipLines false r with
      | ',' :: r => items? fuel (v :: out) r
      | ']' :: r => some (.list (v :: out).reverse, r)
      | _ => none

/-- The entries of a table in braces from the next one on, or its end. -/
def fields? : Nat → Entries → List Char → Option (Entries × List Char)
  | 0, _, _ => none
  | fuel + 1, out, cs => do
    match ← skipLines false cs with
    | '\x7d' :: r => some (out, r)
    | r =>
      let (out, r) ← field? fuel out r
      match ← skipLines false r with
      | ',' :: r => fields? fuel out r
      | '\x7d' :: r => some (out, r)
      | _ => none

/-- A key with its value, put among `out`. -/
def field? : Nat → Entries → List Char → Option (Entries × List Char)
  | 0, _, _ => none
  | fuel + 1, out, cs => do
    let (key, r) ← key? (cs.length + 1) cs
    match r with
    | '=' :: r =>
      let (v, r) ← value? fuel (r.dropWhile isBlank)
      some (← out.put v key, r)
    | _ => none
end

/-- The lines from here on, under the table that `header` opened. -/
def document? : Nat → List String → Entries → List Char → Option Entries
  | 0, _, _, _ => none
  | fuel + 1, header, es, cs => do
    match ← skipLines false cs with
    | [] => some es
    | '[' :: '[' :: r =>
      let (key, r) ← key? (r.length + 1) r
      match r with
      | ']' :: ']' :: r => document? fuel key (← es.openNext key) (← endLine false r)
      | _ => none
    | '[' :: r =>
      let (key, r) ← key? (r.length + 1) r
      match r with
      | ']' :: r => document? fuel key (← es.openTable key) (← endLine false r)
      | _ => none
    | r =>
      let (key, r) ← key? (r.length + 1) r
      match r with
      | '=' :: r =>
        let (v, r) ← value? (2 * r.length + 2) (r.dropWhile isBlank)
        document? fuel header (← es.putUnder header key v) (← endLine false r)
      | _ => none

/-- The table that a text holds; a mark of byte order in front does not count. -/
def read? (s : String) : Option (List (String × Toml)) :=
  let cs := match s.toList with
    | '\uFEFF' :: r => r
    | cs => cs
  (document? (cs.length + 1) [] [] cs).map closeAll

end RichDoc.Toml
