import Std.Data.HashMap
import RichDoc.Text.EntityTable

/-! # Character references by name

`entity?` looks a name up in the table of named references; `charOf` is the character of a numeric
reference. -/

namespace RichDoc.Text

/-- The value of a hexadecimal digit. -/
def hexDigit? (c : Char) : Option Nat :=
  if c.isDigit then some (c.toNat - 0x30)
  else if 'a' ≤ c ∧ c ≤ 'f' then some (c.toNat - 0x57)
  else if 'A' ≤ c ∧ c ≤ 'F' then some (c.toNat - 0x37)
  else none

/-- The number a run of hexadecimal digits stands for. -/
def ofHex (s : List Char) : Nat := s.foldl (fun n c => 16 * n + (hexDigit? c).getD 0) 0

/-- One entry `name=hex+hex` of the table. -/
def entityEntry (s : String) : String × String :=
  match s.splitOn "=" with
  | [name, codes] =>
    (name, String.ofList ((codes.splitOn "+").map fun h => Char.ofNat (ofHex h.toList)))
  | _ => (s, "")

/-- The table of named references, by name. -/
def entities : Std.HashMap String String :=
  Std.HashMap.ofList (entityTable.flatMap fun line => (line.splitOn " ").map entityEntry)

/-- What the reference `&name;` stands for. -/
def entity? (name : String) : Option String := entities[name]?

/-- The character with code point `n`; the replacement character if there is none or it is NUL. -/
def charOf (n : Nat) : Char :=
  if n = 0 then Char.ofNat 0xFFFD
  else if n.isValidChar then Char.ofNat n
  else Char.ofNat 0xFFFD

end RichDoc.Text
