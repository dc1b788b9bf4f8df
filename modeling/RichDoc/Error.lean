import RichDoc.Content.Basic
import RichDoc.Span
import RichDoc.Text.Lines
import RichDoc.Tree.Kind
import RichDoc.Word

/-! # Errors

What can go wrong in composing extensions, in building a document, in converting and in pairing HTML, each
with its `message`. An overflow is no answer to a request: it ends the whole run (`EngineError.isOverflow`). -/

namespace RichDoc

/-- Why a set of extensions does not compose. -/
inductive CompositionError where
  | dependencyCycle (names : List String)
  | duplicateEditorType (name first second : String)
  | duplicateExternalType (kind : Kind) (first second : String)
  | missingFragment (extension : String)
  | invalidContentExpression (node expression : String) (cause : ContentError)
  | unknownContentName (node name : String)
  | missingTopNode (extension : String)
deriving DecidableEq, Repr

def CompositionError.message : CompositionError → String
  | dependencyCycle names => "Extension dependency cycle: " ++ Text.joinWith " -> " names
  | duplicateEditorType name first second =>
    "Editor type '" ++ name ++ "' is claimed by both '" ++ first ++ "' and '" ++ second ++ "'"
  | duplicateExternalType kind first second =>
    "External type '" ++ kind.name ++ "' is claimed by both '" ++ first ++ "' and '" ++ second ++ "'"
  | missingFragment extension =>
    "Extension '" ++ extension ++ "' declares an editor type but no grammar fragment, or the reverse"
  | invalidContentExpression node expression cause =>
    "Invalid content expression '" ++ expression ++ "' on '" ++ node ++ "': " ++ cause.message
  | unknownContentName node name =>
    "Content expression of '" ++ node ++ "' refers to unknown type or group '" ++ name ++ "'"
  | missingTopNode extension =>
    "Root converter registered by '" ++ extension ++ "' has no node type to act as top node"

/-- Why a grammar does not build a document node. -/
inductive SchemaError where
  | unknownNodeType (name : String)
  | unknownMarkType (name : String)
  | missingAttribute (node attr : String)
  | invalidContent (node expected : String) (found : List String)
  | leafWithContent (node : String)
  | markNotAllowed (node mark : String)
  | emptyText
  | noTextType
  | overflow (e : Overflow)
deriving DecidableEq, Repr

def SchemaError.message : SchemaError → String
  | unknownNodeType name => "Unknown node type '" ++ name ++ "'"
  | unknownMarkType name => "Unknown mark type '" ++ name ++ "'"
  | missingAttribute node attr =>
    "Node type '" ++ node ++ "' is missing required attribute '" ++ attr ++ "'"
  | invalidContent node expected found =>
    "Invalid content for '" ++ node ++ "': expected '" ++ expected ++ "', found [" ++
      Text.joinWith ", " found ++ "]"
  | leafWithContent node => "Leaf node type '" ++ node ++ "' cannot have content"
  | markNotAllowed node mark => "Mark '" ++ mark ++ "' is not allowed inside '" ++ node ++ "'"
  | emptyText => "Text nodes cannot be empty"
  | noTextType => "Grammar has no 'text' node type"
  | overflow e => e.message

def SchemaError.isOverflow : SchemaError → Bool
  | overflow _ => true
  | _ => false

/-- Which way a conversion runs: from the external tree to a document, or back. -/
inductive Direction where
  | down | up
deriving DecidableEq, Repr

def Direction.text : Direction → String
  | down => "external -> editor"
  | up => "editor -> external"

/-- Why a conversion fails. -/
inductive ConvertError where
  | unknownType (name : String) (direction : Direction)
  | rootMismatch (expected : String) (count : Nat)
  | unsupported (extension : String) (direction : Direction)
  | rejected (extension reason : String)
  | schema (e : SchemaError)
  | overflow (e : Overflow)
deriving DecidableEq, Repr

def ConvertError.message : ConvertError → String
  | unknownType name direction =>
    "No converter registered for type '" ++ name ++ "' (" ++ direction.text ++ ")"
  | rootMismatch expected count =>
    "Root conversion produced " ++ toString count ++ " nodes, expected a single '" ++ expected ++ "'"
  | unsupported extension direction =>
    "Extension '" ++ extension ++ "' does not support " ++ direction.text ++ " conversion"
  | rejected extension reason => "Extension '" ++ extension ++ "' rejected node: " ++ reason
  | schema e => e.message
  | overflow e => e.message

def ConvertError.isOverflow : ConvertError → Bool
  | schema e => e.isOverflow
  | overflow _ => true
  | _ => false

/-- An HTML literal that looks like a tag but has no readable name. -/
structure MalformedFragment where
  value : String
  span : Option Span
deriving DecidableEq, Repr

def MalformedFragment.message (e : MalformedFragment) : String :=
  "Malformed HTML fragment '" ++ e.value ++ "'" ++
    match e.span with
    | some p => " at " ++ toString p.start ++ ".." ++ toString p.stop
    | none => ""

/-- Why an engine fails. -/
inductive EngineError where
  | composition (e : CompositionError)
  | convert (e : ConvertError)
  | fragment (e : MalformedFragment)
  | overflow (e : Overflow)
deriving DecidableEq, Repr

def EngineError.message : EngineError → String
  | composition e => e.message
  | convert e => e.message
  | fragment e => e.message
  | overflow e => e.message

def EngineError.isOverflow : EngineError → Bool
  | convert e => e.isOverflow
  | overflow _ => true
  | _ => false

end RichDoc
