import RichDoc.Html.Rooting
import RichDoc.Proofs.Tree.Nodes

/-!
# Literals under what holds text

`Rooted` trees have no literal outside of text. Wrapping makes a tree rooted (`rooted_wrapStray`) and leaves a rooted
tree as it is (`wrapStray_of_rooted`), so that wrapping twice is wrapping once.
-/

namespace RichDoc.Html
variable {n c : Node} {k : Kind}

/-- All literals stand under nodes that hold text. -/
def Rooted (n : Node) : Prop := ∀ e ∈ n.nodes, e.kind.holdsPhrasing = false → ∀ c ∈ e.childList, c.kind ≠ .html

/-- A child of a node of kind `k`, wrapped if it is a stray literal. -/
def wrapUnder (k : Kind) (c : Node) : Node :=
  if c.kind = .html ∧ !k.holdsPhrasing then paragraphOf (wrapStray c) else wrapStray c

theorem wrapStrays_eq (k : Kind) (cs : List Node) : wrapStrays k cs = cs.map (wrapUnder k) := by
  induction cs with
  | nil => rfl
  | cons c r ih => rw [wrapStrays, ih, List.map_cons, wrapUnder]

theorem wrapStray_eq (n : Node) :
    wrapStray n = { n with children := n.children.map (List.map (wrapUnder n.kind)) } := by
  obtain ⟨k, v, _ | cs, p, d⟩ := n
  · rfl
  · simp [wrapStray, wrapStrays?, wrapStrays_eq]

@[simp] theorem kind_wrapStray (n : Node) : (wrapStray n).kind = n.kind := by rw [wrapStray_eq]

@[simp] theorem childList_wrapStray (n : Node) : (wrapStray n).childList = n.childList.map (wrapUnder n.kind) := by
  rw [wrapStray_eq]
  cases h : n.children <;> simp [Node.childList, h]

@[simp] theorem childList_paragraphOf (n : Node) : (paragraphOf n).childList = [n] := rfl

/-- Under what holds text nothing is wrapped. -/
theorem wrapUnder_of_holds (h : k.holdsPhrasing = true) (c : Node) : wrapUnder k c = wrapStray c := by
  simp [wrapUnder, h]

theorem wrapUnder_cases (k : Kind) (c : Node) :
    wrapUnder k c = wrapStray c ∧ (c.kind = .html → k.holdsPhrasing = true) ∨
      wrapUnder k c = paragraphOf (wrapStray c) ∧ c.kind = .html ∧ k.holdsPhrasing = false := by
  unfold wrapUnder
  split
  · next h => exact .inr ⟨rfl, h.1, by simpa using h.2⟩
  · next h => exact .inl ⟨rfl, fun hc => by simpa [hc] using h⟩

theorem kind_wrapUnder_ne (h : k.holdsPhrasing = false) (c : Node) : (wrapUnder k c).kind ≠ .html := by
  rcases wrapUnder_cases k c with ⟨heq, hc⟩ | ⟨heq, -⟩
  · rw [heq, kind_wrapStray]
    intro hhtml
    simp [h] at hc
    exact hc hhtml
  · simp [heq, paragraphOf, Node.parent]

/-- What is wrapped holds of a tree if it holds of the tree without the paragraph, and of the paragraph. -/
theorem forall_nodes_wrapUnder {P : Node → Prop} (hp : P (paragraphOf (wrapStray c)))
    (h : ∀ e ∈ (wrapStray c).nodes, P e) : ∀ e ∈ (wrapUnder k c).nodes, P e := by
  rcases wrapUnder_cases k c with ⟨heq, -⟩ | ⟨heq, -⟩
  · rwa [heq]
  · rw [heq, Node.forall_nodes]
    exact ⟨hp, by simpa using h⟩

theorem rooted_wrapStray (n : Node) : Rooted (wrapStray n) := by
  induction n using Node.induct with
  | step n ih =>
    refine Node.forall_nodes.2 ⟨fun hk c hc => ?_, fun c hc => ?_⟩
    · rw [childList_wrapStray] at hc
      obtain ⟨c, -, rfl⟩ := List.mem_map.1 hc
      exact kind_wrapUnder_ne (by simpa using hk) c
    · rw [childList_wrapStray] at hc
      obtain ⟨c', hc', rfl⟩ := List.mem_map.1 hc
      exact forall_nodes_wrapUnder (fun h => by simp [paragraphOf, Node.parent, Kind.holdsPhrasing] at h) (ih c' hc')

theorem wrapStray_of_rooted (h : Rooted n) : wrapStray n = n := by
  induction n using Node.induct with
  | step n ih =>
    have hunder : ∀ c ∈ n.childList, wrapUnder n.kind c = c := by
      intro c hc
      rw [← ih c hc (Node.forall_child h hc)]
      rcases wrapUnder_cases n.kind (wrapStray c) with ⟨heq, -⟩ | ⟨-, hhtml, hk⟩
      · rw [heq, ih c hc (Node.forall_child h hc), ih c hc (Node.forall_child h hc)]
      · exact absurd (by simpa using hhtml) (h n n.self_mem_nodes hk c hc)
    rw [wrapStray_eq]
    obtain ⟨k, v, _ | cs, p, d⟩ := n
    · rfl
    · have hcs : cs.map (wrapUnder k) = cs := (List.map_congr_left (g := id) hunder).trans (List.map_id cs)
      simp [hcs]

theorem wrapStray_wrapStray (n : Node) : wrapStray (wrapStray n) = wrapStray n :=
  wrapStray_of_rooted (rooted_wrapStray n)

end RichDoc.Html
