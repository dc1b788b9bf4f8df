import Mathlib.Logic.ExistsUnique
import RichDoc.Proofs.Html.Rooting

/-!
# The paragraphs that wrapping adds

A `Layered` tree has two kinds of nodes, its own and those added around one node each. Without the added ones it is one
tree (`bare`), with them another (`full`). Wrapping turns the first into the second: there is one way only to tell the
added nodes of `wrapStray n` apart that leaves `n`, and they are paragraphs with nothing of their own around the
literals that had no place (`existsUnique_layered`). So nothing else is touched, and nothing at all in a tree without
such literals.
-/

namespace RichDoc.Html

/-- Lists are the same if two maps agree on them and tell their members apart. -/
theorem eq_of_maps {α β γ : Type} {f : α → β} {g : α → γ} {as bs : List α} (hf : as.map f = bs.map f)
    (hg : as.map g = bs.map g) (h : ∀ a ∈ as, ∀ b ∈ bs, f a = f b → g a = g b → a = b) : as = bs := by
  induction as generalizing bs with
  | nil => exact (List.map_eq_nil_iff.1 hf.symm).symm
  | cons a r ih =>
    cases bs with
    | nil => cases hf
    | cons b s =>
      obtain ⟨hfa, hfr⟩ := List.cons.inj hf
      obtain ⟨hga, hgr⟩ := List.cons.inj hg
      have hab : a = b := h a (by simp) b (by simp) hfa hga
      have hrs : r = s := ih hfr hgr fun a ha b hb => h a (by simp [ha]) b (by simp [hb])
      rw [hab, hrs]

theorem eq_of_maps? {α β γ : Type} {f : α → β} {g : α → γ} {as bs : Option (List α)}
    (hf : as.map (List.map f) = bs.map (List.map f)) (hg : as.map (List.map g) = bs.map (List.map g))
    (h : ∀ a ∈ as.getD [], ∀ b ∈ bs.getD [], f a = f b → g a = g b → a = b) : as = bs := by
  cases as <;> cases bs
  · rfl
  · cases hf
  · cases hf
  · exact congrArg some (eq_of_maps (Option.some.inj hf) (Option.some.inj hg) h)

/-- A tree in which some nodes were added around others. -/
inductive Layered where
  | own (kind : Kind) (value : Option String) (children : Option (List Layered)) (span : Option Span) (data : Data)
  | added (kind : Kind) (value : Option String) (span : Option Span) (data : Data) (child : Layered)

namespace Layered
variable {parent : Option Kind} {k : Kind} {v : Option String} {cs : Option (List Layered)} {p : Option Span} {d : Data}
  {c w w' : Layered}

mutual
/-- The tree of all nodes. -/
def full : Layered → Node
  | own k v cs p d => ⟨k, v, fullBelow? cs, p, d⟩
  | added k v p d c => ⟨k, v, some [full c], p, d⟩

def fullBelow? : Option (List Layered) → Option (List Node)
  | none => none
  | some cs => some (fullBelow cs)

def fullBelow : List Layered → List Node
  | [] => []
  | c :: r => full c :: fullBelow r
end

mutual
/-- The tree with each added node replaced by its child. -/
def bare : Layered → Node
  | own k v cs p d => ⟨k, v, bareBelow? cs, p, d⟩
  | added _ _ _ _ c => bare c

def bareBelow? : Option (List Layered) → Option (List Node)
  | none => none
  | some cs => some (bareBelow cs)

def bareBelow : List Layered → List Node
  | [] => []
  | c :: r => bare c :: bareBelow r
end

/-- Under a node of that kind, if any: each added node is a paragraph without value and data, under a node that does not
hold text; its child is a literal, and it has the span of the literal. -/
inductive Sound : Option Kind → Layered → Prop where
  | own {parent : Option Kind} {k : Kind} {v : Option String} {cs : Option (List Layered)} {p : Option Span} {d : Data}
    (below : ∀ c ∈ cs.getD [], Sound (some k) c) : Sound parent (own k v cs p d)
  | added {k : Kind} {v : Option String} {cs : Option (List Layered)} {p : Option Span} {d : Data}
    (stray : k.holdsPhrasing = false) (below : ∀ c ∈ cs.getD [], Sound (some .html) c) :
    Sound (some k) (added .paragraph none p ∅ (own .html v cs p d))

theorem full_own : (own k v cs p d).full = ⟨k, v, cs.map (List.map full), p, d⟩ := by
  have hbelow (cs : List Layered) : fullBelow cs = cs.map full := by
    induction cs with
    | nil => rfl
    | cons c r ih => rw [fullBelow, ih, List.map_cons]
  cases cs <;> simp [full, fullBelow?, hbelow]

theorem bare_own : (own k v cs p d).bare = ⟨k, v, cs.map (List.map bare), p, d⟩ := by
  have hbelow (cs : List Layered) : bareBelow cs = cs.map bare := by
    induction cs with
    | nil => rfl
    | cons c r ih => rw [bareBelow, ih, List.map_cons]
  cases cs <;> simp [bare, bareBelow?, hbelow]

@[simp] theorem full_added : (added k v p d c).full = ⟨k, v, some [c.full], p, d⟩ := rfl

@[simp] theorem bare_added : (added k v p d c).bare = c.bare := rfl

/-- What is added can be told from the trees with and without it. -/
theorem Sound.eq {parent' : Option Kind} (h : w.Sound parent) (h' : w'.Sound parent') (hfull : w.full = w'.full)
    (hbare : w.bare = w'.bare) : w = w' := by
  induction h generalizing w' parent' with
  | own below ih =>
    cases h' with
    | own below' =>
      simp only [full_own, bare_own, Node.mk.injEq] at hfull hbare
      obtain ⟨rfl, rfl, hfull, rfl, rfl⟩ := hfull
      obtain rfl := eq_of_maps? hfull hbare.2.2.1 fun c hc c' hc' => ih c hc (below' c' hc')
      rfl
    | added stray below' =>
      -- the same node would be a paragraph and a literal
      simp only [full_own, full_added, bare_own, bare_added, Node.mk.injEq] at hfull hbare
      cases hfull.1.symm.trans hbare.1
  | added stray below ih =>
    cases h' with
    | own below' =>
      simp only [full_own, full_added, bare_own, bare_added, Node.mk.injEq] at hfull hbare
      cases hfull.1.trans hbare.1.symm
    | added stray' below' =>
      simp only [full_own, full_added, bare_own, bare_added, Node.mk.injEq, Option.some.injEq, List.cons.injEq]
        at hfull hbare
      obtain ⟨-, rfl, hbelow, rfl, rfl⟩ := hbare
      obtain rfl := eq_of_maps? hfull.2.2.1.1.2.2.1 hbelow fun c hc c' hc' => ih c hc (below' c' hc')
      rfl

/-! ### What wrapping adds -/

theorem exists_below (k : Kind) (cs : List Node)
    (h : ∀ c ∈ cs, ∃ w : Layered, w.full = wrapUnder k c ∧ w.bare = c ∧ w.Sound (some k)) :
    ∃ ws : List Layered, ws.map full = cs.map (wrapUnder k) ∧ ws.map bare = cs ∧ ∀ w ∈ ws, w.Sound (some k) := by
  induction cs with
  | nil => exact ⟨[], rfl, rfl, by simp⟩
  | cons c r ih =>
    obtain ⟨w, hfull, hbare, hsound⟩ := h c (by simp)
    obtain ⟨ws, hfulls, hbares, hsounds⟩ := ih fun c hc => h c (by simp [hc])
    exact ⟨w :: ws, by simp [hfull, hfulls], by simp [hbare, hbares], List.forall_mem_cons.2 ⟨hsound, hsounds⟩⟩

/-- A wrapped tree is the tree with paragraphs added below its root. -/
theorem exists_layered (n : Node) : ∃ cs, (own n.kind n.value cs n.span n.data).full = wrapStray n ∧
    (own n.kind n.value cs n.span n.data).bare = n ∧ ∀ c ∈ cs.getD [], c.Sound (some n.kind) := by
  induction n using Node.induct with
  | step n ih =>
    have hunder : ∀ c ∈ n.childList, ∃ w : Layered,
        w.full = wrapUnder n.kind c ∧ w.bare = c ∧ w.Sound (some n.kind) := by
      intro c hc
      obtain ⟨cs, hfull, hbare, hsound⟩ := ih c hc
      rcases wrapUnder_cases n.kind c with ⟨heq, -⟩ | ⟨heq, hhtml, hstray⟩
      · exact ⟨_, hfull.trans heq.symm, hbare, .own hsound⟩
      · rw [hhtml] at hfull hbare hsound
        refine ⟨added .paragraph none c.span ∅ (own .html c.value cs c.span c.data), ?_, hbare, .added hstray hsound⟩
        rw [heq, full_added, hfull, paragraphOf, wrapStray_eq]
        rfl
    obtain ⟨k, v, cs, p, d⟩ := n
    cases cs with
    | none => exact ⟨none, rfl, rfl, by simp⟩
    | some cs =>
      obtain ⟨ws, hfull, hbare, hsound⟩ := exists_below k cs hunder
      exact ⟨some ws, by simp [full_own, wrapStray_eq, hfull], by simp [bare_own, hbare], hsound⟩

end Layered

/-- Wrapping leaves no literal outside of text. The paragraphs it adds can be told apart in one way: without them the
tree is what it was, and each is a bare paragraph around such a literal. Nothing changes in a tree that has none. -/
theorem existsUnique_layered (n : Node) :
    Rooted (wrapStray n) ∧ (∃! w : Layered, w.Sound none ∧ w.full = wrapStray n ∧ w.bare = n) ∧
      (wrapStray n = n ↔ Rooted n) := by
  obtain ⟨cs, hfull, hbare, hbelow⟩ := Layered.exists_layered n
  have hsound : Layered.Sound none (.own n.kind n.value cs n.span n.data) := .own hbelow
  refine ⟨rooted_wrapStray n, ⟨_, ⟨hsound, hfull, hbare⟩, ?_⟩, fun h => h ▸ rooted_wrapStray n, wrapStray_of_rooted⟩
  rintro w ⟨hw, hwfull, hwbare⟩
  exact hw.eq hsound (hwfull.trans hfull.symm) (hwbare.trans hbare.symm)

end RichDoc.Html
