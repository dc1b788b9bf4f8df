import RichDoc.Word
import RichDoc.Writer.Inline

/-! # Writing blocks

A block is a list of lines (`block`), blocks are parted by blank lines (`blocks`), and a document is its lines with a
line feed after each (`Node.toMarkdown`). Emphasis is written with asterisks, bullets with hyphens, code between
fences longer than any run of backticks in it. The numbers of items are words, so writing may overflow. -/

namespace RichDoc.Writer

/-- The fence of a code block: three backticks, or one more than the longest run in the code. -/
def fence (code : String) : String := Text.replicate (max (Text.longestRun tick code) 2 + 1) tick

/-- The lines of a code block. -/
def codeBlock (code : String) (lang extra : Option String) : List String :=
  let info := lang.getD "" ++ match extra with | some m => " " ++ m | none => ""
  let body := if code.isEmpty then [] else Text.splitLines code
  (fence code ++ info) :: (body ++ [fence code])

/-- A line of a block quote. -/
def quoteLine (line : String) : String := if line.isEmpty then ">" else "> " ++ line

/-- The lines of an item body, a task box going before the first line. -/
def withBox (checked : Option Bool) (body : List String) : List String :=
  match checked with
  | none => body
  | some c =>
    let box := if c then "[x]" else "[ ]"
    match body with
    | [] => [box]
    | line :: r => (box ++ " " ++ line) :: r

/-- The lines of an item: its first line after the marker, the others indented to it. -/
def item (marker : String) : List String → List String
  | [] => [marker]
  | line :: r =>
    let indent := Text.replicate (marker.length + 1) ' '
    (marker ++ " " ++ line) :: r.map fun l => if l.isEmpty then l else indent ++ l

/-- The marker of item number `i` of a list that starts at `start`. -/
def marker (ordered : Bool) (start i : Nat) : Except Overflow String :=
  if ordered then return toString (← wordSum start i) ++ "." else return "-"

/-- A line feed in a cell is a blank. -/
def cellText (n : Node) : String :=
  String.ofList ((inlines? n.children).toList.map fun c => if c = '\n' then ' ' else c)

/-- The cells of a line between bars. -/
def rowLine (cells : List String) : String := "| " ++ Text.joinWith " | " cells ++ " |"

/-- The delimiter of a column with an alignment. -/
def delimiter : Option String → String
  | some "left" => ":--"
  | some "right" => "--:"
  | some "center" => ":-:"
  | _ => "---"

/-- The delimiters of as many columns as there are cells. -/
def delimiters (alignments : List (Option String)) : List String → List String
  | [] => []
  | _ :: r => delimiter (alignments.head?.join) :: delimiters alignments.tail r

/-- The lines of a table, a line of delimiters after the first row. -/
def table (alignments : List (Option String)) : List (List String) → List String
  | [] => []
  | head :: rows => rowLine head :: rowLine (delimiters alignments head) :: rows.map rowLine

/-- The alignments in the data of a table. -/
def alignmentsOf (d : Data) : List (Option String) :=
  (((d.get? "align").bind Json.arr?).getD []).map Json.str?

/-- The cells of the rows of a table. -/
def rowsOf (rows : List Node) : List (List String) := rows.map fun r => r.childList.map cellText

/-- A node that stands in a line of text. -/
def isPhrasing (n : Node) : Bool :=
  match n.kind with
  | .text | .emphasis | .strong | .delete | .inlineCode | .break | .link | .image | .html => true
  | _ => false

/-- The marks of a heading; there are six levels. -/
def headingMarks (depth : Option Nat) : String := Text.replicate (min (max (depth.getD 1) 1) 6) '#'

mutual
/-- The lines of a block. -/
def block : Node → Except Overflow (List String)
  | ⟨k, v, cs, _, d⟩ =>
    match k with
    | .paragraph => .ok (Text.splitLines (inlines? cs))
    | .heading => .ok [headingMarks (d.nat? "depth") ++ " " ++ inlines? cs]
    | .thematicBreak => .ok ["---"]
    | .code => .ok (codeBlock (v.getD "") (d.str? "lang") (d.str? "meta"))
    | .html => .ok (Text.splitLines (v.getD ""))
    | .blockquote => (blocks? cs).map (List.map quoteLine)
    | .list => items? ((d.bool? "ordered").getD false) ((d.nat? "start").getD 1) cs
    | .table => .ok (table (alignmentsOf d) (rowsOf (cs.getD [])))
    | _ =>
      match v with
      | some v => .ok (Text.splitLines v)
      | none =>
        if (cs.getD []).all isPhrasing then .ok (Text.splitLines (inlines? cs)) else blocks? cs

/-- The lines of the children of a node. -/
def blocks? : Option (List Node) → Except Overflow (List String)
  | none => .ok []
  | some cs => blocks cs

/-- The lines of blocks, with a blank line between neighbours. -/
def blocks : List Node → Except Overflow (List String)
  | [] => .ok []
  | [n] => block n
  | n :: r => do
    let lines ← block n
    return lines ++ "" :: (← blocks r)

/-- The lines of the items of a list. -/
def items? (ordered : Bool) (start : Nat) : Option (List Node) → Except Overflow (List String)
  | none => .ok []
  | some cs => items ordered start 0 cs

/-- The lines of items, the first of which is number `i`. -/
def items (ordered : Bool) (start i : Nat) : List Node → Except Overflow (List String)
  | [] => .ok []
  | ⟨_, _, cs, _, d⟩ :: r => do
    let marker ← marker ordered start i
    let body ← blocks? cs
    return item marker (withBox (d.bool? "checked") body) ++ (← items ordered start (i + 1) r)
end

/-- Lines with a line feed after each; nothing for an empty text. -/
def joinLines (lines : List String) : String :=
  let s := Text.joinWith "\n" lines
  if s.isEmpty then s else s ++ "\n"

end RichDoc.Writer

namespace RichDoc

/-- The tree as Markdown. -/
def Node.toMarkdown (n : Node) : Except Overflow String :=
  (if n.kind = .root then Writer.blocks? n.children else Writer.block n).map Writer.joinLines

end RichDoc
