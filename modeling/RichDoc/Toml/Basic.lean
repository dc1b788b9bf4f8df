/-! # TOML values

What a settings file holds. Of numbers and of dates and times only the text is kept. -/

namespace RichDoc

/-- A TOML value. -/
inductive Toml where
  | text (s : String)
  | bool (b : Bool)
  | number (written : String)
  | time (written : String)
  | list (items : List Toml)
  | table (entries : List (String × Toml))
deriving Repr, Inhabited

namespace Toml

/-- The characters that end no line but stand between things on it. -/
def isBlank (c : Char) : Bool := c == ' ' || c == '\t'

/-- The control characters that may stand nowhere but at the end of a line. -/
def isControl (c : Char) : Bool := (c.toNat < 0x20 && c != '\t') || c.toNat == 0x7F

/-- What follows a line end at the front of the text. -/
def newline? : List Char → Option (List Char)
  | '\n' :: r => some r
  | '\r' :: '\n' :: r => some r
  | _ => none

end Toml
end RichDoc
