import RichDoc.Markdown.Event
import RichDoc.Source
import RichDoc.Text.Class
import RichDoc.Text.Lines
import RichDoc.Tree.Node

/-! # From events to a tree

`Builder` is a stack of open nodes, never empty, that takes one event at a time (`Builder.step`).
A frame gathers children, or the text of a literal, or the alternative text of an image. Inline
content right inside a list item goes into a paragraph that the builder opens and closes itself.
`Node.ofEvents` runs the events of a source and closes what is still open. -/

namespace RichDoc

open Markdown (Event Tag Alignment)

namespace Builder

/-- What a frame does with the text it meets. -/
inductive Collect where
  /-- Text becomes children. -/
  | children
  /-- Text becomes the literal value. -/
  | literal
  /-- Text becomes the alternative text. -/
  | alt
deriving DecidableEq, Repr

/-- A node that is still open. `swallowed` counts the constructs open inside it that leave no node;
`implicit` marks a paragraph that no event opened. -/
structure Frame where
  node : Node
  start : Nat
  collect : Collect := .children
  buffer : String := ""
  swallowed : Nat := 0
  implicit : Bool := false

namespace Frame

/-- The frame with `n` as its last child. -/
def append (f : Frame) (n : Node) : Frame :=
  { f with node := { f.node with children := some (f.node.childList ++ [n]) } }

/-- The text with one line feed at its end removed. -/
def withoutLastLineFeed (s : String) : String :=
  match s.toList.reverse with
  | '\n' :: r => String.ofList r.reverse
  | _ => s

/-- The node of a frame that ends at `stop`. -/
def close (f : Frame) (stop : Nat) : Node :=
  let n := { f.node with span := some (Span.make f.start (max stop f.start)) }
  match f.collect with
  | .children => n
  | .literal => { n with value := some (withoutLastLineFeed f.buffer) }
  | .alt => n.withData "alt" f.buffer

/-- Where the children end; the start if there is none with a span. -/
def childrenStop (f : Frame) : Nat :=
  match f.node.childList.filterMap (·.span.map Span.stop) with
  | [] => f.start
  | e :: es => es.foldl max e

/-- Text goes on from a text that is the last child, else it is a child of its own. -/
def addText (f : Frame) (s : String) (r : Span) : Frame :=
  let here := Span.make r.start r.stop
  match f.node.childList.reverse with
  | ⟨.text, some v, cs, p, d⟩ :: before =>
    let n : Node := ⟨.text, some (v ++ s), cs, some (match p with | some p => p.cover here | none => here), d⟩
    { f with node := { f.node with children := some (before.reverse ++ [n]) } }
  | _ => f.append ((Node.literal .text s).placed r.start r.stop)

end Frame
end Builder

/-- The open nodes, from the innermost one (`top`) outward. -/
structure Builder where
  source : Source
  top : Builder.Frame
  below : List Builder.Frame

namespace Builder

/-- Nothing read yet. -/
def init (source : Source) : Builder := ⟨source, { node := Node.parent .root [], start := 0 }, []⟩

/-- Ends the innermost node at `stop`; the root stays open. -/
def closeTop (b : Builder) (stop : Nat) : Builder :=
  match b.below with
  | [] => b
  | f :: fs => { b with top := f.append (b.top.close stop), below := fs }

/-- Ends the paragraphs that no event opened. -/
def closeImplicitFrom (top : Frame) : List Frame → Frame × List Frame
  | [] => (top, [])
  | f :: fs =>
    if top.implicit then closeImplicitFrom (f.append (top.close top.childrenStop)) fs else (top, f :: fs)

def closeImplicit (b : Builder) : Builder :=
  let (top, below) := closeImplicitFrom b.top b.below
  { b with top, below }

def push (b : Builder) (f : Frame) : Builder := { b with top := f, below := b.top :: b.below }

/-- Opens a paragraph if inline content would land right inside a list item. -/
def ensureInline (b : Builder) (start : Nat) : Builder :=
  if b.top.node.kind = .listItem then
    b.push { node := Node.parent .paragraph [], start, implicit := true }
  else b

/-- An inline node without children of its own. -/
def addInline (b : Builder) (n : Node) (r : Span) : Builder :=
  let b := b.ensureInline r.start
  { b with top := b.top.append (n.placed r.start r.stop) }

/-- Inline text. -/
def addText (b : Builder) (s : String) (r : Span) : Builder :=
  let b := b.ensureInline r.start
  { b with top := b.top.addText s r }

/-- Sets `checked` on the innermost list item. -/
def check (checked : Bool) : List Frame → List Frame
  | [] => []
  | f :: fs =>
    if f.node.kind = .listItem then { f with node := f.node.withData "checked" checked } :: fs
    else f :: check checked fs

/-- The first word of an info text and the rest. -/
def splitInfo (info : String) : String × Option String :=
  let cs := info.toList
  let word := cs.takeWhile fun c => !Text.isBlank c
  match cs.dropWhile fun c => !Text.isBlank c with
  | [] => (String.ofList word, none)
  | _ :: r => (String.ofList word, some (String.ofList (Text.dropEndWhile Text.isBlank (r.dropWhile Text.isBlank))))

/-- A value that is a text with at least one character. -/
def nonempty? (s : String) : Option Json := if s.isEmpty then none else some (.str s)

/-- An alignment as data. -/
def alignment : Markdown.Alignment → Json
  | .none => .null
  | .left => "left"
  | .center => "center"
  | .right => "right"

/-- The node that a construct opens, and how it collects. -/
def opened : Tag → Node × Collect
  | .paragraph => (Node.parent .paragraph [], .children)
  | .heading level => ((Node.parent .heading []).withData "depth" level, .children)
  | .blockquote => (Node.parent .blockquote [], .children)
  | .codeBlock info =>
    let n := Node.literal .code ""
    match info.map splitInfo with
    | some (lang, rest) =>
      ((n.withData? "lang" (nonempty? lang)).withData? "meta" (rest.bind nonempty?), .literal)
    | none => (n, .literal)
  | .htmlBlock => (Node.literal .html "", .literal)
  | .list first =>
    (((Node.parent .list []).withData "ordered" first.isSome).withData? "start" (first.map fun n => .int n),
      .children)
  | .item => (Node.parent .listItem [], .children)
  | .table alignments =>
    ((Node.parent .table []).withData "align" (.arr (alignments.map alignment)), .children)
  | .tableHead => ((Node.parent .tableRow []).withData "head" true, .children)
  | .tableRow => (Node.parent .tableRow [], .children)
  | .tableCell => (Node.parent .tableCell [], .children)
  | .emphasis => (Node.parent .emphasis [], .children)
  | .strong => (Node.parent .strong [], .children)
  | .strikethrough => (Node.parent .delete [], .children)
  | .link url title => (((Node.parent .link []).withData "url" url).withData? "title" (nonempty? title), .children)
  | .image url title => (((Node.void .image).withData "url" url).withData? "title" (nonempty? title), .alt)
  | .footnoteDefinition label => ((Node.parent (.other "footnoteDefinition") []).withData "label" label, .children)
  | .superscript => (Node.parent (.other "superscript") [], .children)
  | .subscript => (Node.parent (.other "subscript") [], .children)
  | .definitionList => (Node.parent (.other "definitionList") [], .children)
  | .definitionTerm => (Node.parent (.other "definitionTerm") [], .children)
  | .definitionDescription => (Node.parent (.other "definitionDescription") [], .children)
  | .metadata => (Node.literal (.other "yaml") "", .literal)

/-- A construct starts. -/
def start (b : Builder) (t : Tag) (r : Span) : Builder :=
  let b := if t.isInline then b.ensureInline r.start else b.closeImplicit
  let (node, collect) := opened t
  b.push { node, start := r.start, collect }

/-- An event inside a frame that collects text. -/
def collectStep (b : Builder) (e : Event) (r : Span) : Builder :=
  let addBuffer (s : String) : Builder := { b with top := { b.top with buffer := b.top.buffer ++ s } }
  match e with
  | .text s | .code s | .html s | .inlineHtml s => addBuffer s
  | .softBreak | .hardBreak => addBuffer "\n"
  | .start _ => { b with top := { b.top with swallowed := b.top.swallowed + 1 } }
  | .stop =>
    if 0 < b.top.swallowed then { b with top := { b.top with swallowed := b.top.swallowed - 1 } }
    else b.closeTop (b.source.trimmedStop r)
  | _ => b

/-- An event inside a frame that gathers children. -/
def childrenStep (b : Builder) (e : Event) (r : Span) : Builder :=
  match e with
  | .start t => b.start t r
  | .stop => b.closeImplicit.closeTop (b.source.trimmedStop r)
  | .text s => b.addText s r
  | .softBreak => b.addText "\n" r
  | .hardBreak => b.addInline (Node.void .break) r
  | .code s => b.addInline (Node.literal .inlineCode s) r
  | .html s | .inlineHtml s => b.addInline (Node.literal .html s) r
  | .inlineMath s => b.addInline (Node.literal (.other "inlineMath") s) r
  | .displayMath s => b.addInline (Node.literal (.other "math") s) r
  | .footnoteReference l => b.addInline ((Node.void (.other "footnoteReference")).withData "label" l) r
  | .rule =>
    let b := b.closeImplicit
    { b with top := b.top.append ((Node.void .thematicBreak).placed r.start (b.source.trimmedStop r)) }
  | .taskMarker checked =>
    match check checked (b.top :: b.below) with
    | f :: fs => { b with top := f, below := fs }
    | [] => b

/-- Takes one event. -/
def step (b : Builder) (e : Event) (r : Span) : Builder :=
  if b.top.collect = .children then b.childrenStep e r else b.collectStep e r

/-- Takes events in order. -/
def run (b : Builder) (es : List (Event × Span)) : Builder := es.foldl (fun b e => b.step e.1 e.2) b

/-- Ends all open nodes but the root at `stop`. -/
def closeAll (stop : Nat) (top : Frame) : List Frame → Node
  | [] => top.node
  | f :: fs => closeAll stop (f.append (top.close stop)) fs

/-- The tree, its root spanning the source. -/
def finish (b : Builder) : Node :=
  let b := b.closeImplicit
  { closeAll b.source.size b.top b.below with span := some (Span.make 0 b.source.size) }

end Builder

/-- The tree of the events of `source`. -/
def Node.ofEvents (source : Source) (es : List (Event × Span)) : Node :=
  ((Builder.init source).run es).finish

end RichDoc
