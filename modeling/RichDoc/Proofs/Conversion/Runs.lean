import RichDoc.Conversion.Down
import RichDoc.Conversion.Up
import RichDoc.Engine

/-!
# What a conversion gives

`Conversion.Gives x a`: from some context the run `x` ends with `a`. It opens a chain of binds from the front
(`gives_bind`). `documentOf_eq_ok` and `treeOf_eq_ok` read the two conversions of whole documents in these terms.
-/

namespace RichDoc

namespace Conversion
variable {α β : Type} {x : Conversion α} {f : α → Conversion β} {a : α} {b : β}

/-- From some context the run ends with `a`. -/
def Gives (x : Conversion α) (a : α) : Prop := ∃ cx cx', x.run cx = .ok (a, cx')

theorem gives_pure {a' : α} : Gives (pure a') a ↔ a = a' := by
  constructor
  · rintro ⟨cx, cx', h⟩
    have he : (Except.ok (a', cx) : Except ConvertError (α × Context)) = .ok (a, cx') := h
    cases he
    rfl
  · rintro rfl
    exact ⟨{}, {}, rfl⟩

theorem pure_injective {a' : α} (h : (pure a : Conversion α) = pure a') : a = a' :=
  gives_pure.1 (h ▸ gives_pure.2 rfl)

/-- A run has at most one result. -/
theorem eq_of_pure_singleton {y : Conversion (List α)} {a' : α} (h : y = pure [a]) (h' : y = pure [a']) : a = a' :=
  List.singleton_inj.1 (pure_injective (h.symm.trans h'))

theorem gives_bind (h : Gives (x >>= f) b) : ∃ a, Gives x a ∧ Gives (f a) b := by
  obtain ⟨cx, cx', h⟩ := h
  rw [StateT.run_bind] at h
  cases hx : x.run cx with
  | error e => simp [hx, bind, Except.bind] at h
  | ok p =>
    simp only [hx, bind, Except.bind] at h
    exact ⟨p.1, ⟨cx, p.2, hx⟩, ⟨p.2, cx', h⟩⟩

theorem not_gives_fail {e : ConvertError} : ¬ Gives (fail e) a := by
  rintro ⟨cx, cx', h⟩
  simp [fail, throw, throwThe, MonadExceptOf.throw, StateT.run, StateT.lift, bind, Except.bind] at h

theorem gives_ofSchema {r : Except SchemaError α} : Gives (ofSchema r) a ↔ r = .ok a := by
  cases r with
  | ok b => simp [ofSchema, gives_pure, eq_comm]
  | error e => simp [ofSchema, not_gives_fail]

end Conversion

namespace Composition
open Conversion
variable {c : Composition} {n : Node} {d : Document}

theorem run_pure {α : Type} (a : α) : run (pure a) = .ok a := rfl

theorem gives_of_run {α : Type} {x : Conversion α} {a : α} (h : run x = .ok a) : Gives x a := by
  unfold run at h
  cases hx : x.run {} with
  | error e => simp [hx, Except.map] at h
  | ok p =>
    simp only [hx, Except.map, Except.ok.injEq] at h
    exact ⟨{}, p.2, by rw [hx, ← h]⟩

/-- A tree has the document `d` only if `d` alone is what becomes of it, and is of the top type. -/
theorem gives_of_documentOf (h : c.documentOf n = .ok d) :
    Gives (c.down n) [d] ∧ c.grammar.topType?.map NodeType.name = some d.type := by
  have hrun : run (c.toDocument n) = .ok d := by
    unfold documentOf at h
    cases hr : run (c.toDocument n) with
    | error e =>
      rw [hr] at h
      cases h
    | ok e =>
      rw [hr] at h
      rw [show e = d from Except.ok.inj h]
  obtain ⟨ds, hds, hd⟩ := gives_bind (gives_of_run hrun)
  dsimp only at hd
  split at hd
  · next e =>
    split at hd
    · next htop =>
      rw [gives_pure] at hd
      subst hd
      exact ⟨hds, htop⟩
    · exact absurd hd not_gives_fail
  · exact absurd hd not_gives_fail

theorem documentOf_of_down (h : c.down n = pure [d]) (htop : c.grammar.topType?.map NodeType.name = some d.type) :
    c.documentOf n = .ok d := by
  simp only [documentOf, toDocument, h, pure_bind, htop, if_true, run_pure]
  rfl

theorem treeOf_of_up (h : c.up d = pure [n]) (hk : n.kind = .root) : c.treeOf d = .ok n := by
  simp only [treeOf, toTree, h, pure_bind, hk, if_true, run_pure]
  rfl

end Composition
end RichDoc
