import RichDoc.Toml.Basic

/-! # Tables under construction

A table comes about by its header, by a header further down, or by a dotted key, and that decides who may add to
it: a header may complete a table that only headers further down have named, a dotted key one that only dotted
keys have. What is written as a value is closed. -/

namespace RichDoc.Toml

/-- How a table came about. -/
inductive Origin where
  | header
  /-- Named on the way to a table further down. -/
  | implied
  | dotted
deriving DecidableEq, Repr

/-- What stands under a key while the text is read. -/
inductive Entry where
  | value (v : Toml)
  | table (origin : Origin) (entries : List (String × Entry))
  /-- A list of tables, the one that may grow last. -/
  | tables (closed : List (List (String × Entry))) (last : List (String × Entry))

abbrev Entries := List (String × Entry)

mutual
/-- The finished value of an entry. -/
def Entry.close : Entry → Toml
  | .value v => v
  | .table _ es => .table (closeAll es)
  | .tables ts last => .list (closeTables ts ++ [.table (closeAll last)])

/-- The finished entries of a table. -/
def closeAll : List (String × Entry) → List (String × Toml)
  | [] => []
  | (k, e) :: r => (k, e.close) :: closeAll r

/-- The finished tables of a list. -/
def closeTables : List (List (String × Entry)) → List Toml
  | [] => []
  | t :: r => .table (closeAll t) :: closeTables r
end

namespace Entries

/-- The entries with what stands under `k` changed by `f`, which may refuse. -/
def change (k : String) (f : Option Entry → Option Entry) : Entries → Option Entries
  | [] => (f none).map fun e => [(k, e)]
  | (l, e) :: r =>
    if l = k then (f (some e)).map fun e => (k, e) :: r
    else (change k f r).map ((l, e) :: ·)

/-- Follows `path` through tables and the last tables of lists, makes what is missing, and changes what
stands under its last key by `f`. -/
def reach (f : Option Entry → Option Entry) : List String → Entries → Option Entries
  | [], _ => none
  | [k], es => change k f es
  | k :: r, es => change k (fun
    | none => (reach f r []).map (.table .implied)
    | some (.table o sub) => (reach f r sub).map (.table o)
    | some (.tables ts last) => (reach f r last).map (.tables ts)
    | some (.value _) => none) es

/-- Opens a table by its header. -/
def openTable : List String → Entries → Option Entries := reach fun
  | none => some (.table .header [])
  | some (.table .implied sub) => some (.table .header sub)
  | _ => none

/-- Opens one more table of a list by its header. -/
def openNext : List String → Entries → Option Entries := reach fun
  | none => some (.tables [] [])
  | some (.tables ts last) => some (.tables (ts ++ [last]) [])
  | _ => none

/-- Puts a value under a dotted key of a table. -/
def put (v : Toml) : List String → Entries → Option Entries
  | [], _ => none
  | [k], es => change k (fun
    | none => some (.value v)
    | some _ => none) es
  | k :: r, es => change k (fun
    | none => (put v r []).map (.table .dotted)
    | some (.table o sub) =>
      if o = .dotted ∨ (o = .implied ∧ 1 < r.length) then (put v r sub).map (.table o) else none
    | some _ => none) es

/-- Puts a value under a dotted key of the table that `header` has opened. -/
def putUnder (header key : List String) (v : Toml) (es : Entries) : Option Entries :=
  match header with
  | [] => put v key es
  | header => reach (fun
    | some (.table o sub) => (put v key sub).map (.table o)
    | some (.tables ts last) => (put v key last).map (.tables ts)
    | _ => none) header es

end Entries
end RichDoc.Toml
