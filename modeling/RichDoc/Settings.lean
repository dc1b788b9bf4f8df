import RichDoc.File
import RichDoc.Html.Options
import RichDoc.Json.Basic
import RichDoc.StringMap
import RichDoc.Toml.Read
import RichDoc.Toml.Write

/-! # Settings

`Settings` say which extensions to put together and what to do with HTML. They are kept as TOML
(`Settings.load`, `Settings.write`). What a file does not say is as in `Settings` without more; keys that are
unknown do not count. -/

namespace RichDoc

/-- The extensions by name, and what to do with HTML. -/
structure Settings where
  extensions : List String := ["gfm", "html"]
  html : Html.Options := {}
deriving DecidableEq, Repr

/-- Why settings cannot be had. -/
inductive SettingsError where
  | unreadable
  | malformed
deriving DecidableEq, Repr

/-- What went wrong with the settings at `path`. -/
def SettingsError.message (path : String) : SettingsError → String
  | unreadable => "Failed to read config file at " ++ path
  | malformed => "Failed to parse config file at " ++ path

namespace Settings

/-- A field that may be absent: `d` if it is, and what `f` makes of it otherwise. -/
def fieldOr {α β : Type} (d : β) (f : α → Option β) : Option α → Option β
  | none => some d
  | some v => f v

/-- The HTML settings of two fields that may be absent. -/
def options? {α : Type} (bool? : α → Option Bool) (skipVoid rooting : Option α) : Option Html.Options := do
  return ⟨← fieldOr false bool? skipVoid, ← fieldOr true bool? rooting⟩

/-- The settings of two fields that may be absent. -/
def settings? {α : Type} (texts? : α → Option (List String)) (html? : α → Option Html.Options)
    (extensions html : Option α) : Option Settings := do
  return ⟨← fieldOr ["gfm", "html"] texts? extensions, ← fieldOr {} html? html⟩

section
open Toml

def tomlBool? : Toml → Option Bool
  | .bool b => some b
  | _ => none

def tomlTexts? : Toml → Option (List String)
  | .list vs => vs.mapM fun
    | .text s => some s
    | _ => none
  | _ => none

/-- The HTML settings of a table, or of a list that gives them in order. A date or a time has no fields. -/
def tomlOptions? : Toml → Option Html.Options
  | .table es =>
    options? tomlBool? (StringMap.lookup "skip_void_elements" es) (StringMap.lookup "fix_root_html" es)
  | .list vs => options? tomlBool? vs[0]? vs[1]?
  | .time _ => some {}
  | _ => none

/-- The settings in a TOML text. -/
def ofText? (s : String) : Option Settings := do
  let es ← Toml.read? s
  settings? tomlTexts? tomlOptions? (StringMap.lookup "extensions" es) (StringMap.lookup "html" es)

end

def jsonTexts? (v : Json) : Option (List String) := do (← v.arr?).mapM Json.str?

/-- The HTML settings of an object, or of a list that gives them in order. -/
def jsonOptions? : Json → Option Html.Options
  | .obj es =>
    options? Json.bool? (StringMap.lookup "skip_void_elements" es) (StringMap.lookup "fix_root_html" es)
  | .arr [] => some {}
  | .arr [v] => options? Json.bool? (some v) none
  | .arr [v, w] => options? Json.bool? (some v) (some w)
  | _ => none

/-- The settings in a JSON value: an object, or a list that gives them in order. -/
def ofJson? : Json → Option Settings
  | .obj es => settings? jsonTexts? jsonOptions? (StringMap.lookup "extensions" es) (StringMap.lookup "html" es)
  | .arr [] => some {}
  | .arr [v] => settings? jsonTexts? jsonOptions? (some v) none
  | .arr [v, w] => settings? jsonTexts? jsonOptions? (some v) (some w)
  | _ => none

/-- The settings in a file; none if there is no file. -/
def load : File → Except SettingsError (Option Settings)
  | .missing => .ok none
  | f =>
    match f.text? with
    | none => .error .unreadable
    | some s =>
      match ofText? s with
      | none => .error .malformed
      | some c => .ok (some c)

def writeBool (b : Bool) : String := if b then "true" else "false"

/-- The settings as TOML. -/
def write (c : Settings) : String :=
  "extensions = " ++ Toml.writeTexts c.extensions ++ "\n\n[html]\nskip_void_elements = " ++
    writeBool c.html.skipVoid ++ "\nfix_root_html = " ++ writeBool c.html.rooting ++ "\n"

end Settings
end RichDoc
