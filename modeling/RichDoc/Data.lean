import RichDoc.Json.Basic
import RichDoc.StringMap

/-! # Data

`Data` holds JSON values by key: the further data of a tree node, the attributes of a document node or
a mark, the values kept during a conversion. -/

namespace RichDoc

/-- JSON values by key. -/
abbrev Data := StringMap Json

namespace StringMap

/-- A string under `k`. -/
def str? (m : StringMap Json) (k : String) : Option String := (m.get? k).bind Json.str?

/-- An integer under `k` that is a 64-bit word. -/
def nat? (m : StringMap Json) (k : String) : Option Nat := (m.get? k).bind Json.nat?

/-- A number is a word. -/
theorem nat?_lt_size {m : StringMap Json} {k : String} {n : Nat} (h : m.nat? k = some n) : n < UInt64.size := by
  obtain ⟨v, -, hv⟩ := Option.bind_eq_some_iff.1 h
  exact (Json.nat?_eq_some.1 hv).2

theorem getD_nat?_lt_size {m : StringMap Json} {k : String} {n : Nat} (hn : n < UInt64.size) :
    (m.nat? k).getD n < UInt64.size := by
  cases h : m.nat? k with
  | none => exact hn
  | some i => exact nat?_lt_size h

/-- A boolean under `k`. -/
def bool? (m : StringMap Json) (k : String) : Option Bool := (m.get? k).bind Json.bool?

end StringMap
end RichDoc
