import RichDoc.Tree.Node

/-!
# The nodes of a tree

`Node.nodes` lists a tree's nodes in document order. A condition on "every node at every depth" is a
condition on the members of this list; `Node.induct` is induction from the children to the node. Equality of
trees is decidable (`Node.beq_iff`).
-/

namespace RichDoc
namespace Node

mutual
/-- The nodes of a tree in document order. -/
def nodes : Node → List Node
  | ⟨k, v, cs, p, d⟩ => ⟨k, v, cs, p, d⟩ :: nodesBelow? cs

/-- The nodes of a list of children that may be absent. -/
def nodesBelow? : Option (List Node) → List Node
  | none => []
  | some cs => nodesBelow cs

/-- The nodes of several trees. -/
def nodesBelow : List Node → List Node
  | [] => []
  | n :: r => nodes n ++ nodesBelow r
end

mutual
/-- Induction from the children to the node. -/
@[elab_as_elim]
theorem induct {P : Node → Prop} (step : ∀ n, (∀ c ∈ n.childList, P c) → P n) : ∀ n, P n
  | ⟨k, v, cs, p, d⟩ => step ⟨k, v, cs, p, d⟩ (inductBelow? step cs)

theorem inductBelow? {P : Node → Prop} (step : ∀ n, (∀ c ∈ n.childList, P c) → P n) :
    ∀ (cs : Option (List Node)), ∀ c ∈ cs.getD [], P c
  | none => by simp
  | some cs => inductBelow step cs

theorem inductBelow {P : Node → Prop} (step : ∀ n, (∀ c ∈ n.childList, P c) → P n) :
    ∀ (cs : List Node), ∀ c ∈ cs, P c
  | [] => by simp
  | n :: r => List.forall_mem_cons.2 ⟨induct step n, inductBelow step r⟩
end

theorem nodesBelow_eq (cs : List Node) : nodesBelow cs = cs.flatMap nodes := by
  induction cs with
  | nil => rfl
  | cons n r ih => simp [nodesBelow, ih]

theorem nodes_eq (n : Node) : n.nodes = n :: n.childList.flatMap nodes := by
  obtain ⟨k, v, _ | cs, p, d⟩ := n
  · simp [nodes, nodesBelow?, childList]
  · simp [nodes, nodesBelow?, childList, nodesBelow_eq]

theorem mem_nodes {n e : Node} : e ∈ n.nodes ↔ e = n ∨ ∃ c ∈ n.childList, e ∈ c.nodes := by
  simp [nodes_eq n]

theorem self_mem_nodes (n : Node) : n ∈ n.nodes := mem_nodes.2 (.inl rfl)

theorem forall_nodes {P : Node → Prop} {n : Node} :
    (∀ e ∈ n.nodes, P e) ↔ P n ∧ ∀ c ∈ n.childList, ∀ e ∈ c.nodes, P e := by
  simp only [nodes_eq n, List.forall_mem_cons, List.mem_flatMap]
  exact and_congr_right fun _ => ⟨fun h c hc e he => h e ⟨c, hc, he⟩, fun h e ⟨c, hc, he⟩ => h c hc e he⟩

/-- Induction from all nodes below a node to the node. -/
@[elab_as_elim]
theorem induct_below {P : Node → Prop} (step : ∀ n, (∀ c ∈ n.childList, ∀ e ∈ c.nodes, P e) → P n) (n : Node) : P n :=
  have hall : ∀ n : Node, ∀ e ∈ n.nodes, P e := induct fun n ih => forall_nodes.2 ⟨step n ih, ih⟩
  hall n n n.self_mem_nodes

/-- What holds of every node of a tree holds of every node of its children. -/
theorem forall_child {P : Node → Prop} {n c : Node} (h : ∀ e ∈ n.nodes, P e) (hc : c ∈ n.childList) :
    ∀ e ∈ c.nodes, P e :=
  (forall_nodes.1 h).2 c hc

/-- The children of a tree's nodes are nodes of the tree. -/
theorem mem_nodes_of_child {n e c : Node} (he : e ∈ n.nodes) (hc : c ∈ e.childList) : c ∈ n.nodes := by
  induction n using induct with
  | step n ih =>
    rcases mem_nodes.1 he with rfl | ⟨d, hd, he⟩
    · exact mem_nodes.2 (.inr ⟨c, hc, c.self_mem_nodes⟩)
    · exact mem_nodes.2 (.inr ⟨d, hd, ih d hd he⟩)

mutual
/-- Whether two trees are the same. -/
def beq : Node → Node → Bool
  | ⟨k, v, cs, p, d⟩, ⟨k', v', cs', p', d'⟩ => k == k' && v == v' && beqBelow? cs cs' && p == p' && d == d'

/-- Whether two lists of children that may be absent are the same. -/
def beqBelow? : Option (List Node) → Option (List Node) → Bool
  | none, none => true
  | some cs, some cs' => beqBelow cs cs'
  | _, _ => false

/-- Whether two lists of trees are the same. -/
def beqBelow : List Node → List Node → Bool
  | [], [] => true
  | n :: r, n' :: r' => beq n n' && beqBelow r r'
  | _, _ => false
end

mutual
theorem beq_iff : (m n : Node) → beq m n = true ↔ m = n
  | ⟨k, v, cs, p, d⟩, ⟨k', v', cs', p', d'⟩ => by simp [beq, beqBelow?_iff cs cs', and_assoc]

theorem beqBelow?_iff : (cs ds : Option (List Node)) → beqBelow? cs ds = true ↔ cs = ds
  | none, ds => by cases ds <;> simp [beqBelow?]
  | some cs, ds => by cases ds <;> simp [beqBelow?, beqBelow_iff cs]

theorem beqBelow_iff : (cs ds : List Node) → beqBelow cs ds = true ↔ cs = ds
  | [], ds => by cases ds <;> simp [beqBelow]
  | n :: r, ds => by cases ds <;> simp [beqBelow, beq_iff n, beqBelow_iff r]
end

instance : DecidableEq Node := fun m n => decidable_of_iff _ (beq_iff m n)

theorem textContent_eq (n : Node) : n.textContent = n.value.getD "" ++ textContents n.childList := by
  obtain ⟨k, v, _ | cs, p, d⟩ := n <;> rfl

/-- The text of a tree is the values of its nodes, one after the other. -/
theorem textContent_eq_join (n : Node) : n.textContent = String.join (n.nodes.map (·.value.getD "")) := by
  have hlist (cs : List Node) (h : ∀ c ∈ cs, c.textContent = String.join (c.nodes.map (·.value.getD ""))) :
      textContents cs = String.join ((cs.flatMap nodes).map (·.value.getD "")) := by
    induction cs with
    | nil => rfl
    | cons c r ih =>
      rw [textContents, h c (by simp), ih fun c hc => h c (by simp [hc]), List.flatMap_cons, List.map_append,
        String.join_append]
  induction n using induct with
  | step n ih => rw [textContent_eq, hlist _ ih, nodes_eq, List.map_cons, String.join_cons]

end Node
end RichDoc
