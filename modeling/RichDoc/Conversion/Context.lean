import RichDoc.Data
import RichDoc.Error
import RichDoc.Word

/-! # The state of a conversion

A `Context` holds values that the converters of one run share. Its counters are 64-bit words. A
`Conversion` runs over a context and may fail. -/

namespace RichDoc

/-- Values that the converters of one run share. -/
structure Context where
  values : Data := ∅
deriving DecidableEq, Repr, Inhabited

namespace Context

def get? (cx : Context) (k : String) : Option Json := cx.values.get? k

def set (cx : Context) (k : String) (v : Json) : Context := ⟨cx.values.insert k v⟩

def remove (cx : Context) (k : String) : Context := ⟨cx.values.erase k⟩

/-- The count under `k`; what is no word counts as nought. -/
def count (cx : Context) (k : String) : Nat := (cx.values.nat? k).getD 0

/-- The next count under `k`, and the context that holds it. -/
def next (cx : Context) (k : String) : Except Overflow (UInt64 × Context) := do
  let n ← wordSum (cx.count k) 1
  return (n, cx.set k (n.toNat : Json))

@[simp] theorem get?_set (cx : Context) (k : String) (v : Json) (l : String) :
    (cx.set k v).get? l = if l = k then some v else cx.get? l :=
  StringMap.get?_insert ..

@[simp] theorem get?_remove (cx : Context) (k l : String) :
    (cx.remove k).get? l = if l = k then none else cx.get? l :=
  StringMap.get?_erase ..

end Context

/-- A run over a context that may fail. -/
abbrev Conversion := StateT Context (Except ConvertError)

namespace Conversion
variable {α : Type}

/-- A run that fails. -/
def fail (e : ConvertError) : Conversion α := throw e

/-- The next count under `k`. -/
def next (k : String) : Conversion UInt64 := do
  match (← get).next k with
  | .ok (n, cx) =>
    set cx
    return n
  | .error e => fail (.overflow e)

/-- What a grammar makes or refuses to make. -/
def ofSchema : Except SchemaError α → Conversion α
  | .ok a => pure a
  | .error e => fail (.schema e)

end Conversion
end RichDoc
