import RichDoc.Catalog.Library
import RichDoc.Document.Dump
import RichDoc.Engine
import RichDoc.Extension.Composer
import RichDoc.Json.Write
import RichDoc.Path
import RichDoc.Settings
import RichDoc.Tree.Dump

/-! # The command line

`CommandLine.run` takes the arguments, the settings and the text from wherever files are read, and says what is
printed and with which code it ends. -/

namespace RichDoc

namespace CommandLine

/-- What to show of a Markdown file. -/
inductive View where
  | tree | doc | roundtrip | schema
deriving DecidableEq, Repr

/-- What a run prints, and the code with which it ends. -/
structure Outcome where
  code : Nat
  out : String
  err : List String
deriving DecidableEq, Repr

def Outcome.fail (lines : List String) : Outcome := ⟨1, "", lines⟩

/-- What is printed of an error; an overflow ends the program where it is. -/
def Outcome.ofError (e : EngineError) : Outcome :=
  if e.isOverflow then ⟨101, "", [e.message]⟩ else .fail ["Error: " ++ e.message]

/-- The view of a name. -/
def view? : String → Option View
  | "tree" => some .tree
  | "doc" => some .doc
  | "roundtrip" => some .roundtrip
  | "schema" => some .schema
  | _ => none

/-- A line of names after a title. -/
def titled (title : String) (names : List String) : String := title ++ ": " ++ Text.joinWith ", " names

/-- The names of what a composition holds. -/
def schema (c : Composition) : String :=
  let top := match c.grammar.topType? with
    | some t => [titled "top" [t.name]]
    | none => []
  Text.joinWith "\n" <| top ++ [titled "nodes" (c.grammar.nodes.map (·.name)),
    titled "marks" (c.grammar.marks.map (·.name)), titled "keys" (c.keys.map Prod.fst),
    titled "transforms" (c.transforms.map (·.name))]

/-- A view of a text. -/
def show? (c : Composition) (source : String) : View → Except EngineError String
  | .tree => do return (← c.readTree source).toJson.pretty
  | .doc => do return (← c.read source).toJson.pretty
  | .roundtrip => do c.write (← c.read source)
  | .schema => .ok (schema c)

/-- The composition that the settings ask for. -/
def composition (s : Settings) : Except String Composition :=
  match Catalog.library.requestAll s.html s.extensions with
  | .error name => .error ("Unknown extension '" ++ name ++ "' in config")
  | .ok (ids, lib) => (lib.compose ids).mapError CompositionError.message

/-- The text without blanks at its end, as one or more lines. -/
def printed (s : String) : String :=
  String.ofList (Text.dropEndWhile Text.isBlank s.toList) ++ "\n"

def usage (program : String) : String := "Usage: " ++ program ++ " <tree|doc|roundtrip|schema> <markdown-file>"

/-- A run on files that `read` gives. -/
def run {m : Type → Type} [Monad m] (read : String → m File) (env : String → Option String)
    (program home : String) (args : List String) : m Outcome := do
  let [command, path] := args | return .fail [usage program]
  let some view := view? command
    | return .fail ["Error: Unknown command '" ++ command ++ "'", usage program]
  let settingsPath := Path.settings home
  let settings ← match Settings.load (← read settingsPath) with
    | .ok s => pure (s.getD {})
    | .error e => return .fail ["Error: Failed to load config file: " ++ e.message settingsPath]
  let c ← match composition settings with
    | .ok c => pure c
    | .error e => return .fail ["Error: " ++ e]
  let path := Path.expand env home path
  let some source := (← read path).text? | return .fail ["Error: Failed to read " ++ path]
  match show? c source view with
  | .ok s => return ⟨0, printed s, []⟩
  | .error e => return .ofError e

end CommandLine
end RichDoc
