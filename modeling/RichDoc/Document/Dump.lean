import RichDoc.Document.Basic

/-! # Documents as JSON

`Document.toJson` and `Mark.toJson` write what is there and leave out what is empty. -/

namespace RichDoc

/-- The entry of attributes that may be empty. -/
def Data.entryUnlessEmpty (k : String) (m : Data) : List (String × Json) :=
  if m.isEmpty then [] else [(k, .obj m.entries)]

/-- A mark, its keys in declared order. -/
def Mark.toJson (m : Mark) : Json :=
  .obj (("type", .str m.type) :: Data.entryUnlessEmpty "attrs" m.attrs)

namespace Document

mutual
/-- A document, its keys in declared order. -/
def toJson : Document → Json
  | ⟨type, attrs, content, text, marks⟩ =>
    .obj ([("type", .str type)]
      ++ Data.entryUnlessEmpty "attrs" attrs
      ++ (if content.isEmpty then [] else [("content", .arr (listToJson content))])
      ++ (match text with | some t => [("text", .str t)] | none => [])
      ++ (if marks.isEmpty then [] else [("marks", .arr (marks.map Mark.toJson))]))

/-- A list of documents. -/
def listToJson : List Document → List Json
  | [] => []
  | d :: r => toJson d :: listToJson r
end

end Document
end RichDoc
