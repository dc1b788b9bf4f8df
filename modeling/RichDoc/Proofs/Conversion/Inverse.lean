import RichDoc.Proofs.Conversion.Loading

/-!
# Converters that are inverse to each other

`Composition.InverseAt c t` asks something of two converters, at one node `t` of a tree: the one makes a single node
without marks of it and of whatever became of its children, and the other makes `t` again of this node, with the
children that it is given. If that holds all over a tree, then the tree comes back from its document as it was
(`Composition.toTree_toDocument`). The converters may use the context, so all is said from every context
(`Conversion.Always`).
-/

namespace RichDoc

namespace Conversion
variable {α β : Type} {x : Conversion α} {f : α → Conversion β} {P Q : α → Prop} {R : β → Prop}

/-- From every context the run ends, and what it gives is `P`. -/
def Always (x : Conversion α) (P : α → Prop) : Prop := ∀ cx, ∃ a cx', x.run cx = .ok (a, cx') ∧ P a

theorem always_pure {a : α} (h : P a) : Always (pure a) P := fun cx => ⟨a, cx, rfl, h⟩

theorem Always.bind (hx : Always x P) (hf : ∀ a, P a → Always (f a) R) : Always (x >>= f) R := by
  intro cx
  obtain ⟨a, cx', ha, hP⟩ := hx cx
  obtain ⟨b, cx'', hb, hR⟩ := hf a hP cx'
  refine ⟨b, cx'', ?_, hR⟩
  rw [StateT.run_bind, ha]
  exact hb

/-- What follows a run that gives `a` can be taken from `a` on. -/
theorem Always.bind_eq {a : α} (hx : Always x (· = a)) (hf : Always (f a) R) : Always (x >>= f) R := by
  refine hx.bind ?_
  rintro _ rfl
  exact hf

theorem Always.imp (hx : Always x P) (h : ∀ a, P a → Q a) : Always x Q := by
  intro cx
  obtain ⟨a, cx', ha, hP⟩ := hx cx
  exact ⟨a, cx', ha, h a hP⟩

theorem Always.gives (hx : Always x P) : Always x fun a => P a ∧ Gives x a := by
  intro cx
  obtain ⟨a, cx', ha, hP⟩ := hx cx
  exact ⟨a, cx', ha, hP, cx, cx', ha⟩

end Conversion

namespace Composition
open Conversion Document
variable {c : Composition} {t : Node} {d : Document} {ts : List Node} {ds : List Document}

/-- At the node `t` the two converters are inverse to each other. -/
def InverseAt (c : Composition) (t : Node) : Prop :=
  ∀ cs, Gives (c.downList t.childList) cs → (c.downNode t cs).Always fun ds =>
    ∃ n, ds = [n] ∧ n.marks = [] ∧ n.content = cs ∧
      ∀ ns, (c.upNode n ns).Always (· = [{ t with children := t.children.map fun _ => ns }])

/-- The document has no marks, and the tree is always what becomes of it. -/
def Restores (c : Composition) (t : Node) (d : Document) : Prop := d.marks = [] ∧ (c.up d).Always (· = [t])

theorem always_upList (h : List.Forall₂ c.Restores ts ds) : (c.upList [] ds).Always (· = ts) := by
  induction h with
  | nil =>
    rw [upList]
    exact always_pure rfl
  | @cons t d ts ds hd _ ih =>
    have hnone : farthest ds (d.pending []) = none := farthest_eq_none.2 ((pending_nil d).trans hd.1)
    rw [upList_own hnone]
    exact hd.2.bind_eq (ih.bind_eq (always_pure rfl))

theorem always_downList (h : ∀ t ∈ ts, (c.down t).Always fun ds => ∃ d, ds = [d] ∧ c.Restores t d) :
    (c.downList ts).Always (List.Forall₂ c.Restores ts) := by
  induction ts with
  | nil =>
    rw [downList]
    exact always_pure .nil
  | cons t ts ih =>
    obtain ⟨ht, hts⟩ := List.forall_mem_cons.1 h
    rw [downList]
    refine ht.bind ?_
    rintro _ ⟨d, rfl, hd⟩
    exact (ih hts).bind fun ds hds => always_pure (.cons hd hds)

/-- A tree comes back if the converters are inverse all over it. -/
theorem always_down (h : ∀ e ∈ t.nodes, c.InverseAt e) :
    (c.down t).Always fun ds => ∃ d, ds = [d] ∧ c.Restores t d := by
  induction t using Node.induct with
  | step t ih =>
    obtain ⟨ht, hchildren⟩ := Node.forall_nodes.1 h
    have hlist := always_downList fun e he => ih e he (hchildren e he)
    rw [down_eq]
    refine hlist.gives.bind ?_
    rintro cs ⟨hcs, hgives⟩
    refine (ht cs hgives).imp ?_
    rintro _ ⟨n, rfl, hmarks, hcontent, hup⟩
    refine ⟨n, rfl, hmarks, ?_⟩
    have hback : { t with children := t.children.map fun _ => t.childList } = t := by
      obtain ⟨k, v, _ | ns, p, as⟩ := t <;> rfl
    rw [up, hcontent]
    have hnode := hup t.childList
    rw [hback] at hnode
    exact (always_upList hcs).bind_eq hnode

/-- Where the converters are inverse to each other at each node, trees come back from their documents. -/
theorem toTree_toDocument {T : Set Node} (hclosed : ∀ t ∈ T, ∀ e ∈ t.childList, e ∈ T)
    (hT : ∀ t ∈ T, c.InverseAt t) (ht : t ∈ T) (hroot : t.kind = .root) (cx : Context) :
    ∃ n cx', (c.down t).run cx = .ok ([n], cx') ∧
      (c.grammar.topType?.map NodeType.name = some n.type →
        (c.toDocument t).run cx = .ok (n, cx') ∧ ∀ cx₁, ∃ cx₂, (c.toTree n).run cx₁ = .ok (t, cx₂)) := by
  have hnodes : ∀ t ∈ T, ∀ e ∈ t.nodes, e ∈ T := by
    intro t
    induction t using Node.induct with
    | step t ih =>
      intro ht e he
      rcases Node.mem_nodes.1 he with rfl | ⟨k, hk, he⟩
      · exact ht
      · exact ih k hk (hclosed t ht k hk) e he
  obtain ⟨_, cx', hdown, n, rfl, -, hup⟩ := always_down (fun e he => hT e (hnodes t ht e he)) cx
  refine ⟨n, cx', hdown, fun htop => ⟨?_, fun cx₁ => ?_⟩⟩
  · rw [toDocument, StateT.run_bind, hdown]
    show (if _ = some n.type then _ else _ : Conversion Document).run cx' = _
    rw [if_pos htop]
    rfl
  · obtain ⟨_, cx₂, hrun, rfl⟩ := hup cx₁
    refine ⟨cx₂, ?_⟩
    rw [toTree, StateT.run_bind, hrun]
    show (if t.kind = .root then _ else _ : Conversion Node).run cx₂ = _
    rw [if_pos hroot]
    rfl

/-- Entries of an outline keep their titles and places as attributes. The context holds the last title. -/
def outlineEntry (type : String) (kind : Kind) : Extension where
  name := type
  kind := some kind
  type := some type
  fragment := some <| .node
    { content := some "entry*", attrs := .ofList [("title", some .null), ("from", none), ("to", none)] }
  toDocument g n cs := do
    modify fun cx => cx.set "last" (Catalog.orNull n.value)
    let place := n.span.getD ⟨0, 0⟩
    Catalog.one g type [("title", Catalog.orNull n.value), ("from", place.start), ("to", place.stop)] cs
  toTree _ d ns := do
    modify fun cx => cx.set "last" (Catalog.orNull (d.attrs.str? "title"))
    let place := ⟨(d.attrs.nat? "from").getD 0, (d.attrs.nat? "to").getD 0⟩
    return [⟨kind, d.attrs.str? "title", some ns, some place, ∅⟩]

def outlineType (type : String) : NodeType where
  name := type
  spec := { content := some "entry*", attrs := .ofList [("title", some .null), ("from", none), ("to", none)] }
  content := some (.repeated (.name "entry") 0 none)

def outline : Composition :=
  .of [outlineEntry "outline" .root, outlineEntry "entry" (.other "entry")]
    ⟨[outlineType "outline", outlineType "entry"], [], some "outline"⟩

def outlineTree : Node :=
  ⟨.root, some "notes", some [
    ⟨.other "entry", some "a", some [⟨.other "entry", none, some [], some ⟨2, 5⟩, ∅⟩], some ⟨0, 5⟩, ∅⟩,
    ⟨.other "entry", some "b", some [], some ⟨6, 9⟩, ∅⟩], some ⟨0, 9⟩, ∅⟩

/-- What becomes of an entry. -/
def outlineNode (type : String) (title : Option String) (place : Span) (cs : List Document) : Document :=
  ⟨type, .ofList [("title", Catalog.orNull title), ("from", place.start), ("to", place.stop)], cs, none, []⟩

theorem inverseAt_of_run {cs : List Document} {n : Document}
    (hcs : ∀ cx, ((c.downList t.childList).run cx).map Prod.fst = .ok cs)
    (hdown : ∀ cx, ((c.downNode t cs).run cx).map Prod.fst = .ok [n]) (hmarks : n.marks = []) (hcontent : n.content = cs)
    (hup : ∀ ns cx, ((c.upNode n ns).run cx).map Prod.fst = .ok [{ t with children := t.children.map fun _ => ns }]) :
    c.InverseAt t := by
  rintro cs' ⟨cx, cx', hrun⟩
  have hcs := hcs cx
  rw [hrun] at hcs
  cases hcs
  intro cx
  obtain ⟨⟨ds, cx'⟩, hn, hds⟩ := map_eq_ok.1 (hdown cx)
  refine ⟨ds, cx', hn, n, hds, hmarks, hcontent, fun ns cx => ?_⟩
  obtain ⟨⟨ns', cx'⟩, hback, hns⟩ := map_eq_ok.1 (hup ns cx)
  exact ⟨ns', cx', hback, hns⟩

theorem inverseAt_outline : ∀ e ∈ outlineTree.nodes, outline.InverseAt e := by
  simp only [outlineTree, Node.nodes, Node.nodesBelow?, Node.nodesBelow, List.append_nil, List.nil_append,
    List.cons_append, List.forall_mem_cons]
  let inner := outlineNode "entry" none ⟨2, 5⟩ []
  let first := outlineNode "entry" (some "a") ⟨0, 5⟩ [inner]
  let second := outlineNode "entry" (some "b") ⟨6, 9⟩ []
  let whole := outlineNode "outline" (some "notes") ⟨0, 9⟩ [first, second]
  refine ⟨?_, ?_, ?_, ?_, by simp⟩
  · refine inverseAt_of_run (n := whole) (fun cx => ?_) (fun cx => ?_) rfl rfl fun ns cx => ?_
    all_goals with_unfolding_all rfl
  · refine inverseAt_of_run (n := first) (fun cx => ?_) (fun cx => ?_) rfl rfl fun ns cx => ?_
    all_goals with_unfolding_all rfl
  · refine inverseAt_of_run (n := inner) (fun cx => ?_) (fun cx => ?_) rfl rfl fun ns cx => ?_
    all_goals with_unfolding_all rfl
  · refine inverseAt_of_run (n := second) (fun cx => ?_) (fun cx => ?_) rfl rfl fun ns cx => ?_
    all_goals with_unfolding_all rfl

theorem toTree_toDocument_outline : ∃ n cx, (outline.toDocument outlineTree).run {} = .ok (n, cx) ∧
    ∀ cx₁, ∃ cx₂, (outline.toTree n).run cx₁ = .ok (outlineTree, cx₂) := by
  obtain ⟨n, cx, hdown, h⟩ := toTree_toDocument (c := outline) (T := {e | e ∈ outlineTree.nodes})
    (fun t ht e he => Node.mem_nodes_of_child ht he) inverseAt_outline outlineTree.self_mem_nodes rfl {}
  have htype : ((outline.down outlineTree).run {}).map (fun r => r.1.map Document.type) = .ok ["outline"] := by
    decide +kernel
  rw [hdown] at htype
  have htype : n.type = "outline" := by simpa [Except.map] using htype
  exact ⟨n, cx, h (htype ▸ rfl)⟩

end Composition
end RichDoc
