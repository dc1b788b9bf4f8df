import RichDoc.Json.Basic
import RichDoc.Tree.Node

/-! # Trees as JSON

`Node.toJson` writes a tree, leaving out what is absent; `Node.ofJson?` reads one. Reading is strict
about the types of the known keys and passes over all others. A list stands for its items as the fields in
declared order; where a field may be absent, so may those after it. -/

namespace RichDoc

/-- A span as an object. -/
def Span.toJson (a : Span) : Json := .obj [("start", (a.start : Json)), ("end", (a.stop : Json))]

/-- An offset fits a word, as reading has it (`Json.Read.integer`). -/
def Span.ofJson? : Json → Option Span
  | .obj es => do
    let i ← (StringMap.lookup "start" es).bind Json.nat?
    let j ← (StringMap.lookup "end" es).bind Json.nat?
    some ⟨i, j⟩
  | .arr [v, w] => do some ⟨← v.nat?, ← w.nat?⟩
  | _ => none

namespace Node

mutual
/-- A tree, its keys in declared order. -/
def toJson : Node → Json
  | ⟨k, v, cs, p, d⟩ =>
    .obj ([("type", .str k.name)]
      ++ (match v with | some v => [("value", .str v)] | none => [])
      ++ childrenToJson cs
      ++ (match p with | some p => [("position", p.toJson)] | none => [])
      ++ (if d.isEmpty then [] else [("data", .obj d.entries)]))

/-- The entry of a list of children that may be absent. -/
def childrenToJson : Option (List Node) → List (String × Json)
  | none => []
  | some cs => [("children", .arr (listToJson cs))]

/-- A list of trees. -/
def listToJson : List Node → List Json
  | [] => []
  | n :: r => toJson n :: listToJson r
end

/-- A field that may be absent or null. -/
def field? {α : Type} (read? : Json → Option α) : Option Json → Option (Option α)
  | none | some .null => some none
  | some v => (read? v).map some

/-- A node of its fields: the type has to be there, and data that are there are an object. -/
def ofFields? (type? value : Option Json) (children : Option (Option (List Node)))
    (position data : Option Json) : Option Node := do
  let k ← type?.bind Json.str?
  let value ← field? Json.str? value
  let children ← children
  let span ← field? Span.ofJson? position
  let data ← match data with
    | none => some ∅
    | some v => v.obj?.map StringMap.ofList
  some ⟨.ofName k, value, children, span, data⟩

mutual
/-- Reads a tree. -/
def ofJson? : Json → Option Node
  | .obj es =>
    ofFields? (StringMap.lookup "type" es) (StringMap.lookup "value" es) (childrenIn es)
      (StringMap.lookup "position" es) (StringMap.lookup "data" es)
  | .arr [k] => ofFields? (some k) none (some none) none none
  | .arr [k, v] => ofFields? (some k) (some v) (some none) none none
  | .arr [k, v, cs] => ofFields? (some k) (some v) (childrenOf cs) none none
  | .arr [k, v, cs, p] => ofFields? (some k) (some v) (childrenOf cs) (some p) none
  | .arr [k, v, cs, p, d] => ofFields? (some k) (some v) (childrenOf cs) (some p) (some d)
  | _ => none

/-- Reads the children among the fields of a tree. -/
def childrenIn : List (String × Json) → Option (Option (List Node))
  | [] => some none
  | (k, v) :: r => if k = "children" then childrenOf v else childrenIn r

/-- Reads a list of children that may be null. -/
def childrenOf : Json → Option (Option (List Node))
  | .null => some none
  | .arr vs => (listOfJson? vs).map some
  | _ => none

/-- Reads a list of trees. -/
def listOfJson? : List Json → Option (List Node)
  | [] => some []
  | v :: r => do
    let n ← ofJson? v
    let ns ← listOfJson? r
    some (n :: ns)
end

end Node
end RichDoc
