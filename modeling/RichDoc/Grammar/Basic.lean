import RichDoc.Content.Match
import RichDoc.Content.Read
import RichDoc.Error
import RichDoc.Grammar.Spec

/-! # Grammars

A `Grammar` holds the node types and mark types of a set of extensions, in the order in which they were
declared. `Grammar.build` reads the content expressions and checks the names in them. Of several types
with one name the last is the one that look-ups find. -/

namespace RichDoc

/-- A node type with its content expression; none for a leaf. -/
structure NodeType where
  name : String
  spec : NodeSpec
  content : Option Content
deriving Repr

/-- A mark type. Of two marks on a node the one of lower rank is the outer. -/
structure MarkType where
  name : String
  rank : Nat
  spec : MarkSpec
deriving DecidableEq, Repr

def NodeType.isLeaf (t : NodeType) : Bool := t.content.isNone

def NodeType.inGroup (t : NodeType) (group : String) : Bool := t.spec.groups.contains group

/-- Node types, mark types in order of rank, and the name of the type of whole documents. -/
structure Grammar where
  nodes : List NodeType
  marks : List MarkType
  top : Option String
deriving Repr

namespace Grammar

/-- The node type of a name. -/
def nodeType? (g : Grammar) (name : String) : Option NodeType := g.nodes.reverse.find? (·.name == name)

/-- The mark type of a name. -/
def markType? (g : Grammar) (name : String) : Option MarkType := g.marks.reverse.find? (·.name == name)

def markRank? (g : Grammar) (name : String) : Option Nat := (g.markType? name).map MarkType.rank

/-- The type of whole documents. -/
def topType? (g : Grammar) : Option NodeType := g.top.bind g.nodeType?

/-- Whether a node of type `t` satisfies the name `n` in a content expression. -/
def isA (g : Grammar) (t n : String) : Bool := t == n || (g.nodeType? t).any (·.inGroup n)

/-- The names that content expressions may use: those of the types and their groups. -/
def namesOf (nodes : List (String × NodeSpec)) : List String :=
  nodes.flatMap fun n => n.1 :: n.2.groups

/-- The content expression of one node, with every name among `known`. -/
def readContent (known : List String) (node : String) : Option String → Except CompositionError (Option Content)
  | none => .ok none
  | some s =>
    match Content.read s with
    | .error e => .error (.invalidContentExpression node s e)
    | .ok c =>
      match c.names.find? fun n => !known.contains n with
      | some n => .error (.unknownContentName node n)
      | none => .ok (some c)

/-- The node types of a list of declarations. -/
def nodeTypes (known : List String) : List (String × NodeSpec) → Except CompositionError (List NodeType)
  | [] => .ok []
  | (name, spec) :: r => do
    let content ← readContent known name spec.content
    return ⟨name, spec, content⟩ :: (← nodeTypes known r)

/-- The mark types of a list of declarations, ranked from `rank` on. -/
def markTypes (rank : Nat) : List (String × MarkSpec) → List MarkType
  | [] => []
  | (name, spec) :: r => ⟨name, rank, spec⟩ :: markTypes (rank + 1) r

/-- The grammar of the declared nodes and marks. -/
def build (nodes : List (String × NodeSpec)) (marks : List (String × MarkSpec)) (top : Option String) :
    Except CompositionError Grammar := do
  return ⟨← nodeTypes (namesOf nodes) nodes, markTypes 0 marks, top⟩

end Grammar

/-- What has been declared of a grammar so far. -/
structure Declarations where
  nodes : List (String × NodeSpec) := []
  marks : List (String × MarkSpec) := []
  top : Option String := none
deriving DecidableEq, Repr

namespace Declarations

def addNode (d : Declarations) (name : String) (spec : NodeSpec) : Declarations :=
  { d with nodes := d.nodes ++ [(name, spec)] }

def addMark (d : Declarations) (name : String) (spec : MarkSpec) : Declarations :=
  { d with marks := d.marks ++ [(name, spec)] }

def setTop (d : Declarations) (name : String) : Declarations := { d with top := some name }

def build (d : Declarations) : Except CompositionError Grammar := Grammar.build d.nodes d.marks d.top

end Declarations
end RichDoc
