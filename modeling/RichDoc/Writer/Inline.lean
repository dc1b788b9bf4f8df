import RichDoc.Text.Lines
import RichDoc.Tree.Node

/-! # Writing inline content

Text is written with backslashes before the characters that would mean something (`escape`), code between
runs of backticks longer than any in it (`codeSpan`), and links and images with a tail that holds the
destination and the title (`linkTail`). -/

namespace RichDoc.Writer

/-- Characters that are escaped wherever they stand. -/
def isSpecial (c : Char) : Bool := "\\*_\x60[]<~|!".toList.contains c

/-- Characters that are escaped at the start of a line. -/
def isMarker (c : Char) : Bool := "#>-+=".toList.contains c

/-- Text with backslashes, at the start of a line if `lineStart`. -/
def escapeFrom (lineStart : Bool) : List Char → List Char
  | [] => []
  | c :: r =>
    if (lineStart && isMarker c) || isSpecial c then '\\' :: c :: escapeFrom (c == '\n') r
    else c :: escapeFrom (c == '\n') r

/-- Text as it is written in a line. -/
def escape (s : String) : String := String.ofList (escapeFrom true s.toList)

/-- A backtick. -/
def tick : Char := '\x60'

/-- Code in a line of text. Blanks part a backtick at either end of the code from the marks. -/
def codeSpan (s : String) : String :=
  let marks := Text.replicate (Text.longestRun tick s + 1) tick
  if s.toList.head? == some tick || s.toList.getLast? == some tick then
    marks ++ " " ++ s ++ " " ++ marks
  else marks ++ s ++ marks

/-- Quotes get a backslash. -/
def escapeQuotes : List Char → List Char
  | [] => []
  | c :: r => if c = '\x22' then '\\' :: c :: escapeQuotes r else c :: escapeQuotes r

/-- A title in quotes, with a blank before it. -/
def titleTail : Option String → String
  | none => ""
  | some t => " \"" ++ String.ofList (escapeQuotes t.toList) ++ "\""

/-- What follows the closing bracket of a link or an image. -/
def linkTail (url : String) (title : Option String) : String := "(" ++ url ++ titleTail title ++ ")"

/-- `linkTail` of a node. -/
def tailOf (d : Data) : String := linkTail ((d.str? "url").getD "") (d.str? "title")

mutual
/-- A node in a line of text. -/
def inline : Node → String
  | ⟨k, v, cs, _, d⟩ =>
    match k with
    | .text => escape (v.getD "")
    | .emphasis => "*" ++ inlines? cs ++ "*"
    | .strong => "**" ++ inlines? cs ++ "**"
    | .delete => "~~" ++ inlines? cs ++ "~~"
    | .inlineCode => codeSpan (v.getD "")
    | .break => "\\\n"
    | .html => v.getD ""
    | .link => "[" ++ inlines? cs ++ "]" ++ tailOf d
    | .image => "![" ++ escape ((d.str? "alt").getD "") ++ "]" ++ tailOf d
    | _ =>
      match v with
      | some v => v
      | none => inlines? cs

/-- The children of a node in a line of text. -/
def inlines? : Option (List Node) → String
  | none => ""
  | some cs => inlines cs

/-- Nodes in a line of text. -/
def inlines : List Node → String
  | [] => ""
  | n :: r => inline n ++ inlines r
end

end RichDoc.Writer
