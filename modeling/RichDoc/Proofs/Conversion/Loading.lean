import RichDoc.Proofs.Conversion.Reload
import RichDoc.Proofs.Tree.Nodes

/-!
# What is loaded from a tree

`Loads n cs ds`: of the node `n`, whose children became `cs`, the standard composition makes `ds`. All that it
loads is made by the grammar (`sound_of_gives`), and `Expressible` unless a list without numbers says where it starts
(`expressible_of_gives`).
-/

namespace RichDoc

namespace Composition
open Conversion
variable {c : Composition}

theorem down_eq (c : Composition) (n : Node) : c.down n = c.downList n.childList >>= c.downNode n := by
  obtain ⟨k, v, _ | cs, p, as⟩ := n
  · simp [down, downList?, downList, Node.childList]
  · simp [down, downList?, Node.childList]

theorem gives_downList_cons {n : Node} {r : List Node} {ds : List Document} (h : Gives (c.downList (n :: r)) ds) :
    ∃ es fs, ds = es ++ fs ∧ Gives (c.down n) es ∧ Gives (c.downList r) fs := by
  rw [downList] at h
  obtain ⟨es, hes, h⟩ := gives_bind h
  obtain ⟨fs, hfs, h⟩ := gives_bind h
  exact ⟨es, fs, gives_pure.1 h, hes, hfs⟩

/-- Siblings are loaded one by one. -/
theorem gives_downList {ns : List Node} {ds : List Document} (h : Gives (c.downList ns) ds) :
    ∃ dss, ds = dss.flatten ∧ List.Forall₂ (fun n ds => Gives (c.down n) ds) ns dss := by
  induction ns generalizing ds with
  | nil =>
    rw [downList, gives_pure] at h
    exact ⟨[], h, .nil⟩
  | cons n r ih =>
    obtain ⟨es, fs, rfl, hes, hfs⟩ := gives_downList_cons h
    obtain ⟨dss, rfl, hdss⟩ := ih hfs
    exact ⟨es :: dss, by rw [List.flatten_cons], .cons hes hdss⟩

theorem gives_downList_singleton {n : Node} {ds : List Document} :
    Gives (c.downList [n]) ds ↔ Gives (c.down n) ds := by
  simp [downList]

theorem gives_down {n : Node} {ds : List Document} (h : Gives (c.down n) ds) :
    ∃ cs, Gives (c.downList n.childList) cs ∧ Gives (c.downNode n cs) ds := by
  rw [down_eq] at h
  exact gives_bind h

end Composition

namespace Catalog
open Document Conversion

variable {x : NodeConverter} {y : MarkConverter} {d e : Document} {m : Mark} {n : Node} {v : String}
  {cs ds content : List Document}

theorem gives_textOf {ms : List Mark} (hms : ∀ m ∈ ms, standardGrammar.MakesMark m)
    (h : Gives (textOf standardGrammar n ms) ds) :
    n.value.getD "" = "" ∧ ds = [] ∨ ∃ v, v ≠ "" ∧ n.value = some v ∧
      ds = [ms.foldl (fun d m => standardGrammar.withMark m d) (Grammar.plain v)] := by
  cases hn : n.value with
  | none =>
    simp only [textOf, hn, gives_pure] at h
    exact .inl ⟨rfl, h⟩
  | some v =>
    by_cases hv : v = ""
    · have hnone : textOf standardGrammar n ms = pure [] := by simp [textOf, hn, hv]
      rw [hnone, gives_pure] at h
      exact .inl ⟨hv, h⟩
    · rw [textOf_plain (by rfl) hv hn hms, gives_pure] at h
      exact .inr ⟨v, hv, rfl, h⟩

/-- What a node type takes for content: what became of the children, nothing, or the value as text. -/
inductive Takes (n : Node) (cs : List Document) : Role → List Document → Prop where
  | container : Takes n cs .container cs
  | leaf : Takes n cs .leaf []
  | empty (hv : n.value.getD "" = "") : Takes n cs .literal []
  | literal {v : String} (hv : v ≠ "") (hn : n.value = some v) : Takes n cs .literal [Grammar.plain v]

/-- What becomes of a node with children that are loaded already. -/
inductive Loads (n : Node) (cs : List Document) : List Document → Prop where
  | node {x : NodeConverter} {content : List Document} {e : Document} (hx : x ∈ nodeConverters)
    (hk : x.kind = n.kind) (hc : Takes n cs x.role content)
    (h : standardGrammar.node x.type (.ofList (x.attrs n)) content = .ok e) : Loads n cs [e]
  | mark {y : MarkConverter} {as : Data} {m : Mark} (hy : y ∈ markConverters) (hk : y.kind = n.kind)
    (has : y.attrs n = .ok as) (h : standardGrammar.mark y.type as = .ok m) :
    Loads n cs (cs.map (standardGrammar.withMark m))
  | empty (hk : n.kind = .text ∨ n.kind = .inlineCode) (hv : n.value.getD "" = "") : Loads n cs []
  | text {v : String} (hk : n.kind = .text) (hv : v ≠ "") (hn : n.value = some v) : Loads n cs [Grammar.plain v]
  | code {v : String} {m : Mark} (hk : n.kind = .inlineCode) (hv : v ≠ "") (hn : n.value = some v)
    (hm : standardGrammar.mark "code" ∅ = .ok m) : Loads n cs [standardGrammar.withMark m (Grammar.plain v)]

theorem gives_one {g : Grammar} {ty : String} {attrs : List (String × Json)} (h : Gives (one g ty attrs content) ds) :
    ∃ e, g.node ty (.ofList attrs) content = .ok e ∧ ds = [e] := by
  obtain ⟨e, he, h⟩ := gives_bind h
  exact ⟨e, gives_ofSchema.1 he, gives_pure.1 h⟩

theorem takes_of_gives {r : Role} (h : Gives (r.content standardGrammar n cs) content) : Takes n cs r content := by
  cases r with
  | container =>
    rw [Role.content, gives_pure] at h
    exact h ▸ .container
  | leaf =>
    rw [Role.content, gives_pure] at h
    exact h ▸ .leaf
  | literal =>
    rcases gives_textOf (by simp) h with ⟨hv, rfl⟩ | ⟨v, hv, hn, rfl⟩
    · exact .empty hv
    · exact .literal hv hn

theorem loads_of_gives (h : Gives (standard.downNode n cs) ds) : Loads n cs ds := by
  rcases kind_cases n.kind with ⟨x, hx, hk⟩ | ⟨y, hy, hk⟩ | hk | hk | ⟨k, hk⟩
  · rw [downNode_eq hx hk.symm] at h
    obtain ⟨content, hcontent, h⟩ := gives_bind h
    obtain ⟨e, he, rfl⟩ := gives_one h
    exact .node hx hk (takes_of_gives hcontent) he
  · rw [downNode_mark hy hk.symm] at h
    cases has : y.attrs n with
    | error e =>
      rw [has] at h
      exact absurd h not_gives_fail
    | ok as =>
      rw [has] at h
      obtain ⟨m, hm, h⟩ := gives_bind h
      have hm := gives_ofSchema.1 hm
      rw [markAll_eq (Grammar.mark_mark hm).1, gives_pure] at h
      exact h ▸ .mark hy hk has hm
  · rw [downNode_text hk] at h
    rcases gives_textOf (by simp) h with ⟨hv, rfl⟩ | ⟨v, hv, hn, rfl⟩
    · exact .empty (.inl hk) hv
    · exact .text hk hv hn
  · rw [downNode_code hk] at h
    split at h
    · next hv =>
      rw [gives_pure] at h
      exact h ▸ .empty (.inr hk) (by simpa using hv)
    · next hne =>
      obtain ⟨m, hm, h⟩ := gives_bind h
      have hm := gives_ofSchema.1 hm
      rcases gives_textOf (by simpa using ⟨_, _, hm⟩) h with ⟨hv, rfl⟩ | ⟨v, hv, hn, rfl⟩
      · exact absurd hv (by simpa using hne)
      · exact .code hk hv hn hm
  · have hnone : standard.ofKind? (.other k) = none := rfl
    rw [Composition.downNode, hk, hnone] at h
    exact absurd h not_gives_fail

/-- A list without numbers does not say where it starts. -/
def StartsRight (n : Node) : Prop := n.kind = .list → n.data.contains "start" → n.data.bool? "ordered" = some true

instance : DecidablePred StartsRight := fun n =>
  inferInstanceAs (Decidable (n.kind = .list → n.data.contains "start" → n.data.bool? "ordered" = some true))

theorem sound_plain (hv : v ≠ "") : standardGrammar.Sound (Grammar.plain v) :=
  ⟨.nil, by simp [Grammar.plain], .inl ⟨v, hv, by rfl, rfl⟩⟩

theorem expressible_plain (v : String) : Expressible (Grammar.plain v) where
  attrs := by simp [Typed, nodeForms, Grammar.plain]
  numbered := by simp [Numbered, Grammar.plain]
  literal := by simp [Grammar.plain]
  marks := by simp [Grammar.plain]
  code := by simp [Grammar.plain]

theorem Expressible.withMark (h : Expressible d) (ht : Typed markForms m.type m.attrs)
    (hc : m.type = "code" → d.type = "text") : Expressible (standardGrammar.withMark m d) where
  attrs := h.attrs
  numbered := h.numbered
  literal := h.literal
  marks n hn := by
    rcases Grammar.mem_marks_withMark.1 hn with rfl | ⟨hn, -⟩
    · exact ht
    · exact h.marks n hn
  code n hn hnc := by
    rcases Grammar.mem_marks_withMark.1 hn with rfl | ⟨hn, -⟩
    · exact hc hnc
    · exact h.code n hn hnc

/-- What the converters keep from the children to the node holds of all that is loaded. -/
theorem forall_gives {P : Node → Prop} {Q : Document → Prop}
    (step : ∀ n cs ds, P n → Loads n cs ds → (∀ d ∈ cs, Q d) → ∀ d ∈ ds, Q d)
    (hn : ∀ e ∈ n.nodes, P e) (h : Gives (standard.down n) ds) : ∀ d ∈ ds, Q d := by
  induction n using Node.induct generalizing ds with
  | step n ih =>
    obtain ⟨cs, hcs, hnode⟩ := Composition.gives_down h
    obtain ⟨dss, rfl, hdss⟩ := Composition.gives_downList hcs
    refine step n _ _ (hn n (Node.self_mem_nodes n)) (loads_of_gives hnode) fun d hd => ?_
    obtain ⟨es, hes, hd⟩ := List.mem_flatten.1 hd
    obtain ⟨i, hi, rfl⟩ := List.getElem_of_mem hes
    have hlen := hdss.length_eq
    exact ih _ (List.getElem_mem (hlen ▸ hi)) (Node.forall_child hn (List.getElem_mem (hlen ▸ hi)))
      (hdss.get (hlen ▸ hi) hi) d hd

theorem forall_of_takes {Q : Document → Prop} {r : Role} (h : Takes n cs r content) (hcs : ∀ d ∈ cs, Q d)
    (hplain : ∀ v, v ≠ "" → Q (Grammar.plain v)) : ∀ d ∈ content, Q d := by
  cases h with
  | container => exact hcs
  | leaf => simp
  | empty => simp
  | literal hv => simpa using hplain _ hv

theorem forall_nodes_plain {Q : Document → Prop} (h : Q (Grammar.plain v)) : ∀ e ∈ (Grammar.plain v).nodes, Q e :=
  forall_nodes.2 ⟨h, by simp [Grammar.plain]⟩

theorem forall_nodes_withMark {Q : Document → Prop} (h : ∀ e ∈ d.nodes, Q e)
    (hm : Q d → Q (standardGrammar.withMark m d)) : ∀ e ∈ (standardGrammar.withMark m d).nodes, Q e := by
  obtain ⟨hd, hcontent⟩ := forall_nodes.1 h
  exact forall_nodes.2 ⟨hm hd, hcontent⟩

/-- The grammar makes all that is loaded from a tree. -/
theorem sound_of_gives (h : Gives (standard.down n) ds) : ∀ d ∈ ds, ∀ e ∈ d.nodes, standardGrammar.Sound e := by
  refine forall_gives (P := fun _ => True) (fun n cs ds _ h hcs => ?_) (by simp) h
  have hplain : ∀ v, v ≠ "" → ∀ e ∈ (Grammar.plain v).nodes, standardGrammar.Sound e := fun v hv =>
    forall_nodes_plain (sound_plain hv)
  cases h with
  | @node x content e hx hk hc h =>
    obtain ⟨hself, htype, hcontent, hmarks⟩ := Grammar.node_node h
    have hsound : standardGrammar.Sound e :=
      ⟨hmarks ▸ .nil, by simp [hmarks], .inr (by rw [bare_eq hmarks, hself])⟩
    refine List.forall_mem_singleton.2 (forall_nodes.2 ⟨hsound, ?_⟩)
    rw [hcontent]
    exact forall_of_takes hc hcs hplain
  | mark hy hk has h =>
    intro d hd
    obtain ⟨d', hd', rfl⟩ := List.mem_map.1 hd
    exact forall_nodes_withMark (hcs d' hd') fun hs => hs.withMark ranked_standard ⟨_, _, h⟩
  | empty => simp
  | text hk hv => exact List.forall_mem_singleton.2 (hplain _ hv)
  | code hk hv hn hm =>
    exact List.forall_mem_singleton.2 (forall_nodes_withMark (hplain _ hv) fun hs =>
      hs.withMark ranked_standard ⟨_, _, hm⟩)

/-- Trees can say all that is loaded from a tree. -/
theorem expressible_of_gives (hn : ∀ e ∈ n.nodes, StartsRight e) (h : Gives (standard.down n) ds) :
    ∀ d ∈ ds, ∀ e ∈ d.nodes, Expressible e := by
  refine forall_gives (fun n cs ds hn h hcs => ?_) hn h
  have hplain : ∀ v, v ≠ "" → ∀ e ∈ (Grammar.plain v).nodes, Expressible e := fun v _ =>
    forall_nodes_plain (expressible_plain v)
  cases h with
  | @node x content e hx hk hc h =>
    obtain ⟨-, htype, hcontent, hmarks⟩ := Grammar.node_node h
    have hliteral : e.type = "code_block" ∨ e.type = "html" → e.content.length ≤ 1 := by
      rw [htype, hcontent]
      intro hty
      rw [(literal_iff hx).2 hty] at hc
      cases hc <;> simp
    have hexp : Expressible e := ⟨typed_of_node hx h, numbered_of_node hx h fun hl => hn (hk ▸ hl), hliteral,
      by simp [hmarks], by simp [hmarks]⟩
    refine List.forall_mem_singleton.2 (forall_nodes.2 ⟨hexp, ?_⟩)
    rw [hcontent]
    exact forall_of_takes hc hcs hplain
  | @mark y as m hy hk has h =>
    intro d hd
    obtain ⟨d', hd', rfl⟩ := List.mem_map.1 hd
    refine forall_nodes_withMark (hcs d' hd') fun he => he.withMark (typed_of_mark hy has h) fun hc => ?_
    exact absurd ((Grammar.mark_mark h).2.symm.trans hc) (type_ne_code hy)
  | empty => simp
  | text hk hv => exact List.forall_mem_singleton.2 (hplain _ hv)
  | code hk hv hn hm =>
    refine List.forall_mem_singleton.2 (forall_nodes_withMark (hplain _ hv) fun he => he.withMark ?_ fun _ => rfl)
    simp [(Grammar.mark_mark hm).2, Typed, markForms]

end Catalog
end RichDoc
