import RichDoc.Content.Basic
import RichDoc.Word

/-! # Matching children against a content expression

`Content.ends` gives all places at which a match that begins at a place can end, each once;
`Content.accepts` asks whether the end of the list is among those of a match of the whole.

A repetition is followed round by round (`Content.rounds`): `front` are the places that `count` rounds lead to,
`reached` those that an allowed number of rounds does. It stops when there is no place to go on from, when the bound
is reached, and when a round brings nothing new. Rounds are counted in a word. -/

namespace RichDoc
namespace Content

/-- A way to go on from a place in the list of children: the places it can lead to. -/
abbrev Step := Nat → Except Overflow (List Nat)

/-- The places that `step` leads to from those of `ps`, each once. -/
def image (step : Step) (ps : List Nat) : Except Overflow (List Nat) := do
  return (← ps.mapM step).flatten.eraseDups

/-- The places that at least `least` and at most `most` rounds of `step` lead to, after `count` rounds. -/
def rounds (step : Step) (least : UInt64) (most : Option UInt64) (reached front : List Nat) (count : UInt64) :
    Except Overflow (List Nat) := do
  let reached := if least ≤ count then (reached ++ front).eraseDups else reached
  if most.any (· ≤ count) || front.isEmpty then return reached
  let next ← image step front
  match _h : wordSum count.toNat 1 with
  | .error e => .error e
  | .ok n =>
    -- all of `next` has been gone on from already
    if least < n && next.all (reached.contains ·) then return reached
    rounds step least most reached next n
termination_by UInt64.size - count.toNat
decreasing_by
  have := wordSum_eq_ok.1 _h
  have := n.toNat_lt_size
  omega

section
variable (isA : String → String → Bool) (children : Array String)

mutual
/-- Where a match of the expression can end, by where it begins. The child type `t` satisfies the name
`n` if `isA t n`. -/
def ends : Content → Step
  | name n => fun p =>
    match children[p]? with
    | some t => .ok (if isA t n then [p + 1] else [])
    | none => .ok []
  | seq cs => fun p => endsInOrder cs [p]
  | choice cs => fun p => (endsOfAny cs p).map List.eraseDups
  | repeated c least most => fun p => rounds (ends c) least most [] [p] 0

/-- Where a match of the items one after the other can end, begun at one of `ps`. -/
def endsInOrder : List Content → List Nat → Except Overflow (List Nat)
  | [], ps => .ok ps
  | c :: r, ps => do
    let qs ← image (ends c) ps
    if qs.isEmpty then .ok [] else endsInOrder r qs

/-- Where a match of one of the items can end. -/
def endsOfAny : List Content → Step
  | [], _ => .ok []
  | c :: r, p => do
    let qs ← ends c p
    return qs ++ (← endsOfAny r p)
end

end

/-- Whether the whole list of child types matches. -/
def accepts (c : Content) (isA : String → String → Bool) (types : List String) : Except Overflow Bool := do
  return (← ends isA types.toArray c 0).contains types.length

end Content
end RichDoc
