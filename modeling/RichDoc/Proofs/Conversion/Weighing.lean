import RichDoc.Proofs.Conversion.Loading

/-!
# What a reload loses

The `weight` of a document counts its nodes and marks. What is saved and loaded again never weighs more than
before (`settles_up`), and it weighs as much only where each inline code stands for a single text: several texts
under one inline code become one, and what marks are below it are gone.
-/

namespace RichDoc
namespace Catalog
open Document Conversion

/-- What is loaded from `ns` is no more than `ds`, and it weighs as much only if `P`. -/
def Settles (P : Prop) (ds : List Document) (ns : List Node) : Prop :=
  ∀ es, Gives (standard.downList ns) es →
    weights es ≤ weights ds ∧ es.length ≤ ds.length ∧ (weights es = weights ds → P)

variable {P Q : Prop} {d e : Document} {ds es : List Document} {n : Node} {ns ms : List Node} {m : Mark} {x : Nest}

theorem keepsCode_bare : KeepsCode d.bare ↔ KeepsCode d := by
  rw [keepsCode_iff, keepsCode_iff (d := d), content_bare]

theorem keepsCode_withMark : KeepsCode (standardGrammar.withMark m d) ↔ KeepsCode d := by
  rw [← keepsCode_bare, Grammar.bare_withMark, keepsCode_bare]

theorem keepsCode_of_content (h : d.content = []) : KeepsCode d := by
  rw [keepsCode_iff, h]
  simp

theorem Settles.nil : Settles True [] [] := by
  intro es hes
  rw [Composition.downList, gives_pure] at hes
  simp [hes, weights]

theorem Settles.append (h : Settles P ds ns) (h' : Settles Q es ms) : Settles (P ∧ Q) (ds ++ es) (ns ++ ms) := by
  intro fs hfs
  rw [downList_append] at hfs
  obtain ⟨fs₁, h₁, hfs⟩ := gives_bind hfs
  obtain ⟨fs₂, h₂, hfs⟩ := gives_bind hfs
  rw [gives_pure] at hfs
  obtain ⟨hw₁, hl₁, hP⟩ := h fs₁ h₁
  obtain ⟨hw₂, hl₂, hQ⟩ := h' fs₂ h₂
  subst hfs
  simp only [weights_append, List.length_append]
  exact ⟨by omega, by omega, fun he => ⟨hP (by omega), hQ (by omega)⟩⟩

theorem Settles.imp (h : Settles P ds ns) (hPQ : P → Q) : Settles Q ds ns := fun es hes =>
  ⟨(h es hes).1, (h es hes).2.1, fun he => hPQ ((h es hes).2.2 he)⟩

theorem settles_single (h : ∀ es, Gives (standard.down n) es →
    weights es ≤ weights ds ∧ es.length ≤ ds.length ∧ (weights es = weights ds → P)) : Settles P ds [n] := fun es hes =>
  h es (Composition.gives_downList_singleton.1 hes)

theorem settles_row {S : Nest → Prop} {xs : List Nest}
    (h : List.Forall₂ (fun x n => Settles (S x) (x.docs standardGrammar) [n]) xs ns) :
    Settles (∀ x ∈ xs, S x) (Nest.docsBelow standardGrammar xs) ns := by
  induction h with
  | nil => exact Settles.nil.imp (by simp)
  | cons hx _ ih => exact (hx.append ih).imp fun ⟨h, hr⟩ => List.forall_mem_cons.2 ⟨h, hr⟩

theorem length_le_weights (ds : List Document) : ds.length ≤ weights ds := by
  induction ds with
  | nil => simp
  | cons d r ih =>
    have := weight_pos d
    simp only [List.length_cons, weights]
    omega

theorem weights_withMark_le (m : Mark) (ds : List Document) :
    weights (ds.map (standardGrammar.withMark m)) ≤ weights ds + ds.length := by
  induction ds with
  | nil => simp
  | cons d r ih =>
    have hlen := List.length_filter_le (fun n => n.type != m.type) d.marks
    simp only [List.map_cons, weights, weight_eq, Grammar.withMark, Grammar.length_insertMark, List.length_cons] at ih ⊢
    omega

theorem weights_withMark (h : ∀ d ∈ ds, ∀ n ∈ d.marks, n.type ≠ m.type) :
    weights (ds.map (standardGrammar.withMark m)) = weights ds + ds.length := by
  induction ds with
  | nil => simp
  | cons d r ih =>
    have hkeep : d.marks.filter (fun n => n.type != m.type) = d.marks :=
      List.filter_eq_self.2 fun n hn => by simpa using h d (List.mem_cons_self ..) n hn
    have ih := ih fun e he => h e (List.mem_cons_of_mem _ he)
    simp only [List.map_cons, weights, weight_eq, Grammar.withMark, Grammar.length_insertMark, hkeep,
      List.length_cons] at ih ⊢
    omega

theorem marks_content_of_weight (h : d.weight = 1) : d.marks = [] ∧ d.content = [] := by
  rw [weight_eq] at h
  have := length_le_weights d.content
  exact ⟨List.length_eq_zero_iff.1 (by omega), List.length_eq_zero_iff.1 (by omega)⟩

theorem settles_code {inner : List Nest} (h : Nest.Opened standardGrammar m inner)
    (hi : ∀ x ∈ inner, x.Forall (·.marks = []) (Nest.Opened standardGrammar)) (v : String) :
    Settles (∃ d, d.content = [] ∧ inner = [.leaf d]) ((Nest.under m inner).docs standardGrammar)
      [.literal .inlineCode v] := by
  have hne : Nest.docsBelow standardGrammar inner ≠ [] := by
    have := Nest.docs_ne_nil (.under h hi)
    rw [Nest.docs] at this
    simpa using this
  have hlen : 0 < (Nest.docsBelow standardGrammar inner).length := List.length_pos_iff.2 hne
  have hweights := length_le_weights (Nest.docsBelow standardGrammar inner)
  refine settles_single fun es hes => ?_
  rw [Nest.docs, weights_withMark h.fresh, List.length_map]
  rw [down_none _ rfl] at hes
  have hloads := loads_of_gives hes
  cases hloads with
  | node hx hk => exact absurd hk (kind_ne hx).2.1
  | mark hy hk => exact absurd hk (markKind_ne hy).2
  | empty =>
    simp only [weights, List.length_nil]
    exact ⟨by omega, by omega, fun he => by omega⟩
  | text hk => simp [Node.literal] at hk
  | @code v' m' _ hv hn hm' =>
    have hw : weights [standardGrammar.withMark m' (Grammar.plain v')] = 2 := by
      simp [weights, weight_eq, Grammar.withMark, Grammar.length_insertMark, Grammar.plain]
    rw [hw, List.length_singleton]
    refine ⟨by omega, by omega, fun he => ?_⟩
    obtain ⟨d, hd⟩ := List.length_eq_one_iff.1 (show (Nest.docsBelow standardGrammar inner).length = 1 by omega)
    have hdw : d.weight = 1 := by
      rw [hd] at he
      simp only [weights, List.length_singleton] at he
      omega
    obtain ⟨hmarks, hcontent⟩ := marks_content_of_weight hdw
    exact ⟨d, hcontent, Nest.eq_leaf_of_docsBelow hd hmarks hi⟩

/-- No more is loaded from a nest than its siblings. -/
theorem settles_render (h : x.Forall
    (fun e => (∃ n, standard.up e = pure [n] ∧ Settles (KeepsCode e) [e] [n]) ∧ e.marks = []) MadeOpened) : ∃ n, standard.render x = pure [n] ∧
      Settles (x.CodeSingle ∧ ∀ e ∈ x.docs standardGrammar, KeepsCode e) (x.docs standardGrammar) [n] := by
  induction h with
  | @leaf e h =>
    obtain ⟨⟨n, hup, hn⟩, -⟩ := h
    refine ⟨n, hup, ?_⟩
    rw [Nest.docs]
    exact hn.imp fun he => ⟨.leaf trivial, by simpa using he⟩
  | @under m inner h hi ih =>
    obtain ⟨hm, hopen⟩ := h
    have hi' : ∀ x ∈ inner, x.Forall (·.marks = []) (Nest.Opened standardGrammar) := fun x hx =>
      (hi x hx).imp (fun _ h => h.2) fun _ _ h => h.2
    obtain ⟨ns, hrow, hS⟩ := Composition.renderRow_eq ih
    rcases markType_of_mark hm with hc | ⟨y, hy, hym⟩
    · refine ⟨_, render_code hc hrow, (settles_code hopen hi' _).imp ?_⟩
      rintro ⟨d, hd, rfl⟩
      refine ⟨.under (fun _ => ⟨d, rfl⟩) (by simpa using Nest.Forall.leaf trivial), ?_⟩
      simpa [Nest.docs, Nest.docsBelow] using keepsCode_of_content (d := standardGrammar.withMark m d) hd
    · refine ⟨_, render_mark hy hym hrow, settles_single fun es hes => ?_⟩
      rw [down_some _ rfl] at hes
      obtain ⟨cs, hcs, hes⟩ := gives_bind hes
      obtain ⟨hw, hl, hP⟩ := settles_row hS cs hcs
      rw [Nest.docs, weights_withMark hopen.fresh, List.length_map]
      have hloads := loads_of_gives hes
      cases hloads with
      | node hx hk => exact absurd hk ((kind_ne hx).2.2 y hy)
      | @mark y' as m' =>
        have hle := weights_withMark_le m' cs
        rw [List.length_map]
        refine ⟨by omega, hl, fun he => ?_⟩
        have hall := hP (by omega)
        refine ⟨.under (fun hc => ?_) fun x hx => (hall x hx).1, fun e he => ?_⟩
        · exact absurd (hym.trans hc) (type_ne_code hy)
        · obtain ⟨e', he', rfl⟩ := List.mem_map.1 he
          obtain ⟨x, hx, hex⟩ := Nest.mem_docsBelow.1 he'
          exact keepsCode_withMark.2 ((hall x hx).2 e' hex)
      | empty hk => exact absurd hk (not_or.2 (markKind_ne hy))
      | text hk => exact absurd hk (markKind_ne hy).1
      | code hk => exact absurd hk (markKind_ne hy).2

/-- No more is loaded for content than the content. -/
theorem settles_takes {x : NodeConverter} {cs content : List Document} (hx : x ∈ nodeConverters)
    (hnode : standardGrammar.node x.type d.attrs d.content = .ok d.bare) (hs : ∀ e ∈ d.content, standardGrammar.Sound e)
    (hlit : x.role = .literal → d.content.length ≤ 1) (hkeep : Settles (KeepsCode d) d.content ns)
    (hcs : Gives (standard.downList (x.tree d ns).childList) cs) (h : Takes (x.tree d ns) cs x.role content) :
    weights content ≤ weights d.content ∧ (weights content = weights d.content → KeepsCode d) := by
  cases hr : x.role with
  | container =>
    rw [hr] at h
    cases h
    have hchildren : (x.tree d ns).childList = ns := by simp [NodeConverter.tree, Node.childList, hr, Role.children]
    obtain ⟨hw, -, hP⟩ := hkeep cs (hchildren ▸ hcs)
    exact ⟨hw, hP⟩
  | leaf =>
    rw [hr] at h
    cases h
    exact ⟨Nat.zero_le _, fun _ => keepsCode_of_content (content_of_leaf hx hr hnode)⟩
  | literal =>
    rw [hr] at h
    rcases content_eq_plain hs (content_of_literal hx hr hnode) (hlit hr) with hd | ⟨v, hv, hd⟩
    · -- a literal without text is empty
      have hvalue : (x.tree d ns).value = some "" := by simp [value_tree hr hnode ns, hd, textContents]
      cases h with
      | empty => exact ⟨Nat.zero_le _, fun _ => keepsCode_of_content hd⟩
      | literal hv hn => exact absurd (Option.some.inj (hvalue.symm.trans hn)).symm hv
    · have hle : weights content ≤ weights d.content := by
        cases h <;> simp [hd, weights, weight_eq, Grammar.plain]
      refine ⟨hle, fun _ => keepsCode_iff.2 ⟨?_, ?_⟩⟩
      · rw [hd, group_leaf rfl, group_nil]
        exact List.forall_mem_singleton.2 (.leaf trivial)
      · rw [hd]
        exact List.forall_mem_singleton.2 (keepsCode_of_content rfl)

/-- No more is loaded of a document than the document. -/
theorem settles_up (hs : ∀ e ∈ d.nodes, standardGrammar.Sound e) (he : ∀ e ∈ d.nodes, Expressible e) :
    ∃ n, standard.up d = pure [n] ∧ Settles (KeepsCode d) [d.bare] [n] := by
  induction d using Document.induct with
  | step d ih =>
    obtain ⟨hsd, hs⟩ := forall_nodes.1 hs
    obtain ⟨hed, he⟩ := forall_nodes.1 he
    have hsc : ∀ e ∈ d.content, standardGrammar.Sound e := fun e hed => hs e hed e (self_mem_nodes e)
    have hrank : ∀ e ∈ d.content, standardGrammar.InRank e.marks := fun e hed => (hsc e hed).marks
    have hnests := forall_group_sound (P := fun e => ∃ n, standard.up e = pure [n] ∧ Settles (KeepsCode e) [e] [n]) hsc
      fun e hed => by
        obtain ⟨n, hn, hsettle⟩ := ih e hed (hs e hed) (he e hed)
        exact ⟨n, by rw [Composition.up_bare markBlind_standard, hn], hsettle.imp keepsCode_bare.2⟩
    obtain ⟨ns, hrow, hback⟩ := Composition.renderRow_eq fun x hx => settles_render (hnests x hx)
    have hback := settles_row hback
    rw [Nest.docs_group _ hrank] at hback
    have hkeep : Settles (KeepsCode d) d.content ns := hback.imp fun hall => by
      refine keepsCode_iff.2 ⟨fun x hx => (hall x hx).1, fun e hed => ?_⟩
      rw [← Nest.docs_group (g := standardGrammar) d.content hrank] at hed
      obtain ⟨x, hx, hex⟩ := Nest.mem_docsBelow.1 hed
      exact (hall x hx).2 e hex
    rcases hsd.body with ⟨v, hv, -, hd⟩ | hnode
    · refine ⟨.literal .text v, ?_, settles_single fun es hes => ?_⟩
      · rw [← Composition.up_bare markBlind_standard, hd, up_plain]
      · rw [down_plain hv, gives_pure] at hes
        rw [hes, hd]
        exact ⟨Nat.le_refl _, Nat.le_refl _, fun _ => keepsCode_of_content (congrArg Document.content hd)⟩
    · obtain ⟨x, hx, hxd⟩ := exists_nodeConverter_of_node hnode
      refine ⟨_, up_node hx hxd hrow, settles_single fun es hes => ?_⟩
      obtain ⟨cs, hcs, hes⟩ := Composition.gives_down hes
      rw [downNode_eq hx rfl] at hes
      obtain ⟨content, hcontent, hes⟩ := gives_bind hes
      obtain ⟨e, he', rfl⟩ := gives_one hes
      obtain ⟨-, -, hce, hme⟩ := Grammar.node_node he'
      have hweight : weights [e] = 1 + weights content := by simp [weights, weight_eq, hce, hme]
      have hbare : weights [d.bare] = 1 + weights d.content := by simp [weights, weight_eq]
      rw [← hxd] at hnode
      obtain ⟨hle, hP⟩ := settles_takes hx hnode hsc
        (fun hr => hed.literal (hxd ▸ (literal_iff hx).1 hr)) hkeep hcs (takes_of_gives hcontent)
      rw [hweight, hbare]
      exact ⟨by omega, Nat.le_refl _, fun h => hP (by omega)⟩

end Catalog
end RichDoc
