import RichDoc.Error
import RichDoc.Text.Class

/-! # HTML literals

A literal is a *fragment* if it is a single construct in angle brackets (`isFragment`). `Fragment.classify`
says which one it is. A fragment that is a tag has a name: a letter, then letters, digits and hyphens, then
white space, a slash or the closing bracket; one without is malformed. -/

namespace RichDoc.Html

/-- The elements that have no closing tag. -/
def voidElements : List String :=
  ["input", "base", "link", "meta", "hr", "br", "wbr", "source", "img", "embed", "track", "area", "col"]

/-- A text with its ASCII letters in lower case. -/
def lower (s : String) : String := String.ofList (s.toList.map Char.toLower)

/-- The element has no closing tag. -/
def isVoidElement (tag : String) : Bool := voidElements.contains (lower tag)

/-- What is written between a pair of angle brackets. Names of tags are in lower case. -/
inductive Fragment where
  | comment
  | cdata
  | declaration
  | processing
  | opening (name : String)
  | closing (name : String)
deriving DecidableEq, Repr

/-- The literal starts and ends with an angle bracket and has no other. -/
def isFragment (cs : List Char) : Bool :=
  cs.head? == some '<' && cs.getLast? == some '>' && cs.count '<' == 1 && cs.count '>' == 1

/-- A letter, as a tag name starts with. -/
def isNameStart (c : Char) : Bool := c.isAlpha

/-- A letter, a digit or a hyphen. -/
def isNameChar (c : Char) : Bool := c.isAlphanum || c == '-'

/-- White space, a slash or a closing bracket. -/
def endsName (c : Char) : Bool := Text.isBlank c || c == '/' || c == '>'

/-- The tag name that `cs` starts with. -/
def nameOf? (cs : List Char) : Option String :=
  match cs with
  | c :: _ =>
    if isNameStart c && (cs.dropWhile isNameChar).head?.any endsName then
      some (String.ofList ((cs.takeWhile isNameChar).map Char.toLower))
    else none
  | [] => none

namespace Fragment

/-- The name of a tag. -/
def name? : Fragment → Option String
  | opening n | closing n => some n
  | _ => none

/-- An opening tag of that name. -/
def isOpening (f : Fragment) (n : String) : Bool := f == opening n

/-- A closing tag of that name. -/
def isClosing (f : Fragment) (n : String) : Bool := f == closing n

/-- What a fragment is, by what follows its opening bracket. -/
def ofBody? (body : List Char) : Option Fragment :=
  if "!--".toList.isPrefixOf body then some comment
  else if "![CDATA[".toList.isPrefixOf body then some cdata
  else if "!".toList.isPrefixOf body then some declaration
  else if "?".toList.isPrefixOf body then some processing
  else match body with
    | '/' :: r => (nameOf? r).map closing
    | r => (nameOf? r).map opening

/-- What a literal is, if it is a fragment. -/
def classify (value : String) : Except MalformedFragment (Option Fragment) :=
  if isFragment value.toList then
    match ofBody? (value.toList.drop 1) with
    | some f => .ok (some f)
    | none => .error ⟨value, none⟩
  else .ok none

end Fragment
end RichDoc.Html
