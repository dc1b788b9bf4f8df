import RichDoc.Markdown.Events
import RichDoc.Tree.Builder

/-! # The tree of a text -/

namespace RichDoc

/-- Reads Markdown, with tables, strikethrough and task lists. -/
def Node.ofMarkdown (text : String) : Node :=
  let s := Source.ofString text
  Node.ofEvents s (Markdown.events s)

end RichDoc
