import RichDoc.Html.Fragment
import RichDoc.Html.Options
import RichDoc.Tree.Slots

/-! # Pairing tags

Reading Markdown gives one literal per HTML tag. `reconcile` joins each opening tag to the nearest later closing
tag of its name: the opening tag becomes one literal that holds the text of all literals from the one to the
other, and the rest of them goes. Tags are not nested, so the first of two equal opening tags takes the first
closing tag. Nodes without a span take no part. -/

namespace RichDoc.Html

/-- The fragment of a node with a span, `none` for a node that is none; fails on a malformed one. -/
def fragmentOf (n : Node) : Except MalformedFragment (Option Fragment) :=
  match n.kind, n.span, n.value with
  | .html, some p, some v =>
    match Fragment.classify v with
    | .ok f => .ok f
    | .error e => .error { e with span := some p }
  | _, _, _ => .ok none

/-- The fragments of a table with their places, the first of which is `i`; fails on the first malformed
one. -/
def collect (i : Nat) : List Slot → Except MalformedFragment (List (Nat × Fragment))
  | [] => .ok []
  | s :: r =>
    match fragmentOf s.node with
    | .error e => .error e
    | .ok f =>
      match collect (i + 1) r with
      | .error e => .error e
      | .ok fs => .ok (match f with | some f => (i, f) :: fs | none => fs)

/-- For each fragment the nearest later closing tag of its name, and for each name the first closing tag; the
fragments are numbered from `i`. -/
def closingFrom (i : Nat) : List Fragment → List (Option Nat) × List (String × Nat)
  | [] => ([], [])
  | f :: r =>
    let (table, seen) := closingFrom (i + 1) r
    match f.name? with
    | none => (none :: table, seen)
    | some n => (seen.lookup n :: table, if f.isClosing n then (n, i) :: seen else seen)

/-- For each fragment the number of the nearest later closing tag of its name. -/
def closings (fs : List Fragment) : List (Option Nat) := (closingFrom 0 fs).1

/-- The text of the literals within `range` at the places from `i` to `j`. -/
def literalText (t : Slots) (range : Span) (i j : Nat) : String :=
  String.join <| (List.range' i (j + 1 - i)).filterMap fun k =>
    if t.isRemoved k then none
    else match t[k]? with
      | some ⟨⟨_, some v, _, some p, _⟩, _, _, _, _⟩ => if p.within range then some v else none
      | _ => none

/-- Removes the nodes after place `i` up to `j` that stand between the end of the opening tag and that of the
closing one. -/
def removeBetween (t : Slots) (opening closing : Span) (i j : Nat) : Slots :=
  (List.range' (i + 1) (j - i)).foldl (fun u k =>
    match t.span? k with
    | some p => if opening.stop ≤ p.start && p.stop ≤ closing.stop then u.remove k else u
    | none => u) t

/-- Widens the nodes that the one at place `i` stands under to hold `range`. -/
def widen (t : Slots) (range : Span) (i : Nat) : Slots :=
  match t[i]?.bind (·.parent) with
  | none => t
  | some p =>
    if p < i then
      widen (t.edit p fun n => { n with span := n.span.map (·.cover range) }) range p
    else t
termination_by i

/-- Joins the opening tag at place `i` to the closing tag at place `j`. -/
def merge (t : Slots) (i j : Nat) : Slots :=
  match t.span? i, t.span? j with
  | some opening, some closing =>
    let range := Span.make opening.start closing.stop
    let value := literalText t range i j
    let t := removeBetween t opening closing i j
    let t := t.edit i fun n => { n with kind := .html, value := some value, span := some range }
    widen t range i
  | _, _ => t

/-- The fragment at place `i` opens a pair. -/
def opensPair (o : Options) (t : Slots) (i : Nat) : Fragment → Bool
  | .opening n => !t.isRemoved i && !(o.skipVoid && isVoidElement n)
  | _ => false

/-- Joins pairs from fragment `k` on; after a pair, goes on behind its closing tag. -/
def pairFrom (o : Options) (fs : Array (Nat × Fragment)) (closing : Array (Option Nat)) (t : Slots)
    (k : Nat) : Slots :=
  match _hk : fs[k]? with
  | none => t
  | some (i, f) =>
    match (if opensPair o t i f then closing[k]?.join else none) with
    | none => pairFrom o fs closing t (k + 1)
    | some c => pairFrom o fs closing (merge t i ((fs[c]?.map Prod.fst).getD i)) (max k c + 1)
termination_by fs.size - k
decreasing_by
  all_goals
    have := (Array.getElem?_eq_some_iff.1 _hk).1
    omega

/-- Joins all pairs of tags in a tree. -/
def reconcile (o : Options) (n : Node) : Except MalformedFragment Node :=
  let t := n.slots
  match collect 0 t.toList with
  | .error e => .error e
  | .ok fs => .ok (pairFrom o fs.toArray (closings (fs.map Prod.snd)).toArray t 0).toNode

end RichDoc.Html
