/-! # Lines and runs of a text

`splitOnChar` and its inverse `joinWith`, the longest run of a character, and removal of a tail. -/

namespace RichDoc.Text

/-- The parts of `s` between the occurrences of `sep`; never empty. -/
def splitOnChar (sep : Char) : List Char → List (List Char)
  | [] => [[]]
  | c :: r =>
    if c = sep then [] :: splitOnChar sep r
    else match splitOnChar sep r with
      | [] => [[c]]
      | p :: ps => (c :: p) :: ps

/-- The lines of `s`, split at line feeds; an empty text has one empty line. -/
def splitLines (s : String) : List String := (splitOnChar '\n' s.toList).map String.ofList

/-- `ss` with `sep` between neighbours. -/
def joinWith (sep : String) : List String → String
  | [] => ""
  | [s] => s
  | s :: r => s ++ sep ++ joinWith sep r

/-- `n` copies of `c`. -/
def replicate (n : Nat) (c : Char) : String := String.ofList (List.replicate n c)

/-- Length of the longest run of `c`, where `run` characters of it have just been read. -/
def longestRunFrom (c : Char) (run best : Nat) : List Char → Nat
  | [] => best
  | d :: r => if d = c then longestRunFrom c (run + 1) (max best (run + 1)) r
    else longestRunFrom c 0 best r

/-- Length of the longest run of `c` in `s`. -/
def longestRun (c : Char) (s : String) : Nat := longestRunFrom c 0 0 s.toList

/-- `cs` without the characters at its end that satisfy `p`. -/
def dropEndWhile (p : Char → Bool) (cs : List Char) : List Char :=
  (cs.reverse.dropWhile p).reverse

theorem splitOnChar_ne_nil (sep : Char) (cs : List Char) : splitOnChar sep cs ≠ [] := by
  cases cs with
  | nil => simp [splitOnChar]
  | cons c r => unfold splitOnChar; split; · simp
                split <;> simp

end RichDoc.Text
