import RichDoc.Conversion.Context
import RichDoc.Document.Basic
import RichDoc.Grammar.Basic
import RichDoc.Tree.Node

/-! # Extensions

An `Extension` brings in one node or mark type: the kind it stands for in trees, its type and fragment in the
grammar, the converters between the two, and the keys, input rules and transforms that go with it. A `Library`
holds extensions; an extension is known by its place in the library, so two with one name stay apart. -/

namespace RichDoc

/-- What a key does. -/
inductive Command where
  | toggleMark (type : String)
  | insertNode (type : String)
  | nextCell
  | previousCell
  | named (name : String)
deriving DecidableEq, Repr

/-- What typing does: text of the shape `pattern` at the start of a block makes it a `produces`. -/
inductive InputRule where
  | pattern (pattern produces : String)
  | named (name : String)
deriving DecidableEq, Repr

/-- A change to whole trees before they become documents. -/
structure Transform where
  name : String
  apply : Node → Except EngineError Node

/-- One node or mark type with all that belongs to it. A converter is given the converted children. -/
structure Extension where
  name : String
  kind : Option Kind := none
  type : Option String := none
  fragment : Option Fragment := none
  /-- The extensions it needs, by their places in the library. -/
  requires : List Nat := []
  toDocument : Grammar → Node → List Document → Conversion (List Document) :=
    fun _ _ _ => .fail (.unsupported name .down)
  toTree : Grammar → Document → List Node → Conversion (List Node) := fun _ _ _ => .fail (.unsupported name .up)
  /-- Puts a run of nodes under a mark. -/
  wrap : Grammar → Mark → List Node → Conversion (List Node) := fun _ _ _ => .fail (.unsupported name .up)
  keys : List (String × Command) := []
  rules : List InputRule := []
  transforms : List Transform := []

namespace Extension

/-- The node that an extension declares. -/
def node? (e : Extension) : Option (String × NodeSpec) :=
  match e.type, e.fragment with
  | some t, some (.node spec) => some (t, spec)
  | _, _ => none

/-- The mark that an extension declares. -/
def mark? (e : Extension) : Option (String × MarkSpec) :=
  match e.type, e.fragment with
  | some t, some (.mark spec) => some (t, spec)
  | _, _ => none

end Extension

/-- Extensions, each known by its place. -/
abbrev Library := Array Extension

end RichDoc
