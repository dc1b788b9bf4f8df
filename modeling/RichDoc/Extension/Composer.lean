import RichDoc.Composition

/-! # Composing extensions

A `Composer` goes through the requested extensions and all that they need, depth first: an extension is met before
what it needs, and once. Each that it meets it registers, adding to the grammar, the tables, the bindings and the
transforms. It stops at an extension that does not go with those before it, and at one that needs itself, directly or
through others. -/

namespace RichDoc

/-- What is left to do on a walk through a library. -/
inductive Visit where
  /-- Go to an extension. -/
  | enter (id : Nat)
  /-- Go back from the innermost extension on the path. -/
  | leave
deriving DecidableEq, Repr

namespace Library

/-- The places that have not been met. -/
def unmet (lib : Library) (met : List Nat) : List Nat := (List.range lib.size).filter (· ∉ met)

theorem unmet_cons_lt {lib : Library} {met : List Nat} {i : Nat} (hi : i < lib.size) (h : i ∉ met) :
    (lib.unmet (i :: met)).length < (lib.unmet met).length := by
  unfold unmet
  have : (List.range lib.size).filter (· ∉ i :: met) =
      ((List.range lib.size).filter (· ∉ met)).filter (· ≠ i) := by
    rw [List.filter_filter]
    exact List.filter_congr fun j _ => by simp
  rw [this]
  refine List.length_filter_lt_length_iff_exists.2 ⟨i, ?_, by simp⟩
  simp [hi, h]

/-- The circle that closes when the extension `i` is met on the path to it, innermost first. -/
def circle (path : List Nat) (i : Nat) : List Nat := (path.takeWhile (· ≠ i) ++ [i]).reverse ++ [i]

/-- The names of the extensions at places. -/
def names (lib : Library) (ids : List Nat) : List String := (ids.filterMap (lib[·]?)).map (·.name)

end Library

/-- The type and the fragment that an extension declares. -/
def Declarations.declare (d : Declarations) (e : Extension) : Declarations :=
  match e.type, e.fragment with
  | some t, some (.node spec) => d.addNode t spec
  | some t, some (.mark spec) => d.addMark t spec
  | _, _ => d

/-- The type of an extension that stands for the root becomes the top; fails if it is no node. -/
def Declarations.claimTop (d : Declarations) (e : Extension) : Except CompositionError Declarations :=
  if e.kind = some .root then
    match e.type, e.fragment with
    | some t, some (.node _) => .ok (d.setTop t)
    | _, _ => .error (.missingTopNode e.name)
  else .ok d

/-- What has been gathered from the extensions that a walk has met: `visited` are their places, last first, and `path`
the way to where the walk is, innermost first. -/
structure Composer where
  visited : List Nat := []
  path : List Nat := []
  order : List Extension := []
  grammar : Declarations := {}
  byKind : Converters Kind := []
  byType : Converters String := []
  bindings : Bindings := {}
  transforms : List Transform := []

namespace Composer

/-- Whether an extension says all that it should and claims no type and no kind that is claimed. -/
def check (c : Composer) (e : Extension) : Except CompositionError Unit := do
  if e.type.isSome != e.fragment.isSome then throw (.missingFragment e.name)
  if let some t := e.type then
    if let some owner := c.byType.lookup t then throw (.duplicateEditorType t owner.name e.name)
  if let some k := e.kind then
    if let some owner := c.byKind.lookup k then throw (.duplicateExternalType k owner.name e.name)

/-- Adds all that an extension brings along. -/
def register (c : Composer) (e : Extension) : Except CompositionError Composer := do
  c.check e
  let grammar ← c.grammar.claimTop e
  let bindings := c.bindings.bindAll e.keys
  return { c with
    order := c.order ++ [e]
    grammar := grammar.declare e
    byKind := e.kind.elim c.byKind (c.byKind.put · e)
    byType := e.type.elim c.byType (c.byType.put · e)
    bindings := { bindings with rules := bindings.rules ++ e.rules }
    transforms := c.transforms ++ e.transforms }

theorem register_eq {c c' : Composer} {e : Extension} (h : c.register e = .ok c') :
    c'.visited = c.visited ∧ c'.path = c.path := by
  unfold register at h
  cases hcheck : c.check e with
  | error err => simp [hcheck, bind, Except.bind] at h
  | ok =>
    cases htop : c.grammar.claimTop e with
    | error err => simp [hcheck, htop, bind, Except.bind] at h
    | ok grammar =>
      simp only [hcheck, htop, bind, Except.bind, pure, Except.pure, Except.ok.injEq] at h
      subst h
      exact ⟨rfl, rfl⟩

/-- Walks on through a library, registering what is met for the first time. -/
def visit (lib : Library) (c : Composer) : List Visit → Except CompositionError Composer
  | [] => .ok c
  | .leave :: r => visit lib { c with path := c.path.tail } r
  | .enter i :: r =>
    if c.path.contains i then .error (.dependencyCycle (lib.names (Library.circle c.path i)))
    else if hm : i ∈ c.visited then visit lib c r
    else if hi : i < lib.size then
      match hreg : { c with visited := i :: c.visited }.register lib[i] with
      | .error e => .error e
      | .ok c' => visit lib { c' with path := i :: c'.path } (lib[i].requires.map .enter ++ .leave :: r)
    else visit lib c r
termination_by todo => ((lib.unmet c.visited).length, todo.length)
decreasing_by
  · exact Prod.Lex.right _ (by simp)
  · exact Prod.Lex.right _ (by simp)
  · refine Prod.Lex.left _ _ ?_
    rw [(register_eq hreg).1]
    exact Library.unmet_cons_lt hi hm
  · exact Prod.Lex.right _ (by simp)

/-- What has been gathered, with the grammar that has been declared. -/
def finish (c : Composer) : Except CompositionError Composition := do
  return ⟨← c.grammar.build, c.byKind, c.byType, c.bindings, c.transforms, c.order⟩

end Composer

/-- The composition of the requested extensions. -/
def Library.compose (lib : Library) (requested : List Nat) : Except CompositionError Composition := do
  let c ← Composer.visit lib {} (requested.map .enter)
  c.finish

end RichDoc
