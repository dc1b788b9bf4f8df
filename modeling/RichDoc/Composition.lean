import RichDoc.Extension.Basic

/-! # Compositions

A `Composition` is what extensions come to that go together: their grammar, the tables that say which of them converts
what, what they bind keys to, and their rules and transforms in order. -/

namespace RichDoc

/-- What keys do, in the order in which they were bound, and the input rules. -/
structure Bindings where
  keymap : List (String × Command) := []
  rules : List InputRule := []
deriving DecidableEq, Repr

namespace Bindings

/-- What a key does. -/
def command? (b : Bindings) (key : String) : Option Command := b.keymap.lookup key

/-- Binds a key unless it is bound, and says whether it did. -/
def bind (b : Bindings) (key : String) (command : Command) : Bool × Bindings :=
  if (b.command? key).isSome then (false, b) else (true, { b with keymap := b.keymap ++ [(key, command)] })

/-- Binds keys one after the other. -/
def bindAll (b : Bindings) : List (String × Command) → Bindings
  | [] => b
  | (key, command) :: r => bindAll (b.bind key command).2 r

end Bindings

/-- The extensions that convert what goes by a key, one for each key. -/
abbrev Converters (κ : Type) := List (κ × Extension)

/-- Puts an extension under a key, in place of the one that was there. -/
def Converters.put {κ : Type} [BEq κ] (t : Converters κ) (key : κ) (e : Extension) : Converters κ :=
  t.filter (·.1 != key) ++ [(key, e)]

/-- What extensions that go together come to, and these in the order in which they were met. -/
structure Composition where
  grammar : Grammar
  byKind : Converters Kind
  byType : Converters String
  bindings : Bindings
  transforms : List Transform
  extensions : List Extension

namespace Composition

/-- The extension that converts nodes of a kind. -/
def ofKind? (c : Composition) (k : Kind) : Option Extension := c.byKind.lookup k

/-- The extension that converts documents or marks of a type. -/
def ofType? (c : Composition) (t : String) : Option Extension := c.byType.lookup t

/-- The kinds that are converted, in order. -/
def kinds (c : Composition) : List Kind := (c.byKind.map Prod.fst).mergeSort Kind.le

/-- The types that are converted, in order. -/
def types (c : Composition) : List String := (c.byType.map Prod.fst).mergeSort fun a b => !(b < a)

/-- What the keys do; of two extensions that bind a key the first counts. -/
def keys (c : Composition) : List (String × Command) := c.bindings.keymap

def rules (c : Composition) : List InputRule := c.bindings.rules

end Composition
end RichDoc
