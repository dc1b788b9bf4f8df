import RichDoc.Markdown.Event
import RichDoc.Span

/-! # Inline content

What a block of text holds once it is known which marks count, and its events. -/

namespace RichDoc.Markdown

/-- A stretch of inline content. `wrap` is emphasis, a link or an image around its children. -/
inductive Inline where
  | text (span : Span) (s : String)
  | code (span : Span) (s : String)
  | html (span : Span) (s : String)
  | softBreak (span : Span)
  | hardBreak (span : Span)
  | task (span : Span) (checked : Bool)
  | wrap (tag : Tag) (span : Span) (children : List Inline)
deriving Repr, Inhabited

namespace Inline

mutual
/-- The events of one stretch. -/
def events : Inline → List (Event × Span)
  | text r s => [(.text s, r)]
  | code r s => [(.code s, r)]
  | html r s => [(.inlineHtml s, r)]
  | softBreak r => [(.softBreak, r)]
  | hardBreak r => [(.hardBreak, r)]
  | task r checked => [(.taskMarker checked, r)]
  | wrap tag r cs => (.start tag, r) :: (listEvents cs ++ [(.stop, r)])

/-- The events of several stretches in order. -/
def listEvents : List Inline → List (Event × Span)
  | [] => []
  | x :: r => events x ++ listEvents r
end

end Inline
end RichDoc.Markdown
