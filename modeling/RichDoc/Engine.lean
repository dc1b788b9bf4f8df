import RichDoc.Conversion.Down
import RichDoc.Conversion.Up
import RichDoc.Markdown.Tree
import RichDoc.Writer.Block

/-! # From text to documents and back

`Composition.readTree` reads Markdown and applies the transforms; `Composition.read` goes on to a document;
`Composition.write` writes a document as Markdown. -/

namespace RichDoc.Composition
variable (c : Composition)

/-- A run from a fresh context. -/
def run {α : Type} (x : Conversion α) : Except ConvertError α := (x.run {}).map Prod.fst

/-- The tree with all transforms applied, in order. -/
def transform (n : Node) : Except EngineError Node := c.transforms.foldlM (fun n t => t.apply n) n

/-- The tree of a text, with all transforms applied. -/
def readTree (source : String) : Except EngineError Node := c.transform (Node.ofMarkdown source)

/-- The document of a tree as it is. -/
def documentOf (n : Node) : Except EngineError Document := (run (c.toDocument n)).mapError .convert

/-- The tree of a document. -/
def treeOf (d : Document) : Except EngineError Node := (run (c.toTree d)).mapError .convert

/-- The document of a text. -/
def read (source : String) : Except EngineError Document := do c.documentOf (← c.readTree source)

/-- The Markdown text of a document. -/
def write (d : Document) : Except EngineError String := do
  let n ← c.treeOf d
  n.toMarkdown.mapError .overflow

end RichDoc.Composition
