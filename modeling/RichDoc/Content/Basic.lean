/-! # Content expressions

A content expression says which lists of children a node type accepts: names of node types or of
groups, put in sequence, offered as a choice, or repeated a number of times. `Content.names` are the
names it uses. -/

namespace RichDoc

/-- What the children of a node may be, as a regular expression over their types. -/
inductive Content where
  /-- One child of this type, or of a type in this group. -/
  | name (n : String)
  /-- The items in order. -/
  | seq (items : List Content)
  /-- Any one of the items. -/
  | choice (items : List Content)
  /-- At least `least` and, where there is a bound, at most `most` times `item`. -/
  | repeated (item : Content) (least : UInt64) (most : Option UInt64)
deriving Repr, Inhabited

namespace Content

mutual
/-- The names in a content expression, in order, with repetitions. -/
def names : Content → List String
  | name n => [n]
  | seq cs => namesAll cs
  | choice cs => namesAll cs
  | repeated c _ _ => names c

/-- The names in a list of content expressions. -/
def namesAll : List Content → List String
  | [] => []
  | c :: r => names c ++ namesAll r
end

/-- The expressions as one sequence; a single one stands for itself. -/
def sequence : List Content → Content
  | [c] => c
  | cs => seq cs

/-- The expressions as one choice; a single one stands for itself. -/
def alternatives : List Content → Content
  | [c] => c
  | cs => choice cs

end Content

/-- Why a text is not a content expression. -/
inductive ContentError where
  | unexpectedChar (c : Char)
  | unexpected (token : String)
  | expectedName
  | missingParen
  | expectedNumber (found : String)
  | unexpectedInRange (found : String)
  | unclosedRange
deriving DecidableEq, Repr

def ContentError.message : ContentError → String
  | unexpectedChar c => "unexpected character '" ++ String.singleton c ++ "'"
  | unexpected t => "unexpected '" ++ t ++ "'"
  | expectedName => "expected a type name"
  | missingParen => "missing ')'"
  | expectedNumber t => "expected a number, found '" ++ t ++ "'"
  | unexpectedInRange t => "unexpected '" ++ t ++ "' in range"
  | unclosedRange => "unclosed range"

end RichDoc
