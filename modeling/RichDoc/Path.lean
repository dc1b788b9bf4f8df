import RichDoc.Text.Class

/-! # Paths

A path that a person gives may use variables, `$NAME` or `$` and the name in braces, and `~` for the home directory
(`Path.expand`). In braces a value for an unset variable may follow the name and the sign `:-`; two dollar signs are
one. If a variable is unset, the path stays as it is. -/

namespace RichDoc.Path

/-- A part of a path: text, or a variable with the value it has when it is unset. -/
inductive Piece where
  | text (s : String)
  | variable (name : String) (fallback : Option String)
deriving DecidableEq, Repr

/-- A character of the name of a variable. -/
def isNameChar (c : Char) : Bool := Text.isWord c || c == '_'

/-- What stands before the first `:-`, and what after it. -/
def splitDefault : List Char → List Char × Option (List Char)
  | [] => ([], none)
  | ':' :: '-' :: r => ([], some r)
  | c :: r => let (name, fallback) := splitDefault r; (c :: name, fallback)

/-- The variable that stands in braces; without a name the whole is one. -/
def braced (cs : List Char) : Piece :=
  match splitDefault cs with
  | (c :: name, fallback) => .variable (String.ofList (c :: name)) (fallback.map String.ofList)
  | ([], _) => .variable (String.ofList cs) none

theorem length_dropWhile_le {α : Type} (p : α → Bool) (l : List α) : (l.dropWhile p).length ≤ l.length :=
  (List.dropWhile_suffix p).length_le

/-- The parts of a path. -/
def pieces (cs : List Char) : List Piece :=
  match cs with
  | [] => []
  | '$' :: '\x7b' :: r =>
    let body := r.takeWhile (· != '\x7d')
    match _h : r.dropWhile (· != '\x7d') with
    | _ :: r' => braced body :: pieces r'
    | [] => .text "$\x7b" :: pieces r
  | '$' :: '$' :: r => .text "$" :: pieces r
  | '$' :: c :: r =>
    if isNameChar c then
      .variable (String.ofList (c :: r.takeWhile isNameChar)) none :: pieces (r.dropWhile isNameChar)
    else .text "$" :: pieces (c :: r)
  | c :: r => .text (String.singleton c) :: pieces r
termination_by cs.length
decreasing_by
  · have := length_dropWhile_le (· != '\x7d') r
    simp only [_h, List.length_cons] at this ⊢
    omega
  · simp only [List.length_cons]; omega
  · simp only [List.length_cons]; omega
  · have := length_dropWhile_le isNameChar r
    simp only [List.length_cons]
    omega
  · simp only [List.length_cons]; omega
  · simp only [List.length_cons]; omega

/-- The names of the variables in a path. -/
def variableNames (path : String) : List String :=
  (pieces path.toList).filterMap fun
    | .variable n _ => some n
    | .text _ => none

/-- The text of a part; none for a variable that is unset and has no other value. -/
def Piece.value? (env : String → Option String) : Piece → Option String
  | .text s => some s
  | .variable n fallback => (env n).or fallback

/-- The path begins with `~`. -/
def startsHome (path : String) : Bool := path.toList.head? == some '~'

/-- `home` for a `~` that stands alone or before a slash. -/
def expandHome (home : String) (path : String) : String :=
  match path.toList with
  | ['~'] => home
  | '~' :: '/' :: r => home ++ String.ofList ('/' :: r)
  | _ => path

/-- The path with its variables and the home directory put in. A `~` that a variable brings to the front is
left. -/
def expand (env : String → Option String) (home path : String) : String :=
  match (pieces path.toList).mapM (·.value? env) with
  | none => path
  | some parts =>
    let s := String.join parts
    if startsHome s && !startsHome path then s else expandHome home s

/-- Where the settings are kept. -/
def settings (home : String) : String := expandHome home "~/.config/unimark" ++ "/config.toml"

end RichDoc.Path
