import RichDoc.Proofs.Writer.Blocks

/-!
# Margins

Containers put a margin before the lines of what they hold: an angle bracket and a blank, or the columns of a marker.
`Placed p ls ms`: the lines `ls` stand together in the lines `ms`, behind the margin `p`. Every block that is written
with a tree stands so in the lines of the tree (`Written.placed`), and in the physical lines of its text if no line has a
line feed (`isLine_written_iff`).
-/

namespace RichDoc.Writer
open Text

variable {n m c e : Node} {cs : List Node} {p q l s : String} {ls ms ns : List String}

/-- A margin without the blanks at its end. -/
def trimmed (margin : String) : String := String.ofList (dropEndWhile (· = ' ') margin.toList)

/-- A line behind a margin; no blanks are left behind the margin of an empty line. -/
def margined (margin line : String) : String := if line.isEmpty then trimmed margin else margin ++ line

/-- The lines `ms` are the lines `ls` behind a margin, with anything before the first of them, such as a marker. -/
inductive Behind (margin : String) : List String → List String → Prop where
  | nil : Behind margin [] []
  | cons (first l : String) (ls : List String) :
    Behind margin (l :: ls) ((first ++ l) :: ls.map (margined margin))

/-- The lines `ls` stand together in the lines `ms`, behind a margin. -/
def Placed (margin : String) (ls ms : List String) : Prop :=
  ∃ before between after, ms = before ++ between ++ after ∧ Behind margin ls between

theorem trimmed_append (p q : String) :
    trimmed (p ++ q) = if trimmed q = "" then trimmed p else p ++ trimmed q := by
  apply String.toList_injective
  simp only [trimmed, dropEndWhile, String.toList_append, List.reverse_append, List.dropWhile_append,
    List.isEmpty_iff, String.ofList_eq_empty_iff, List.reverse_eq_nil_iff]
  split <;> simp

theorem margined_comp (q p : String) : margined q ∘ margined p = margined (q ++ p) := by
  funext l
  show margined q (margined p l) = margined (q ++ p) l
  by_cases hl : l = ""
  · subst hl
    by_cases hp : trimmed p = "" <;> simp [margined, trimmed_append, hp]
  · simp [margined, hl, String.append_assoc]

theorem margined_empty : margined "" = id := by
  funext l
  unfold margined
  split
  · next h =>
    rw [String.isEmpty_iff.1 h]
    rfl
  · exact String.empty_append

theorem exists_margined (p l : String) : ∃ first, margined p l = first ++ l := by
  unfold margined
  split
  · next h => exact ⟨trimmed p, by rw [String.isEmpty_iff.1 h, String.append_empty]⟩
  · exact ⟨p, rfl⟩

namespace Behind

theorem map (p : String) (ls : List String) : Behind p ls (ls.map (margined p)) := by
  cases ls with
  | nil => exact .nil
  | cons l ls =>
    obtain ⟨first, hfirst⟩ := exists_margined p l
    rw [List.map_cons, hfirst]
    exact .cons first l ls

theorem refl (ls : List String) : Behind "" ls ls := by
  have h := map "" ls
  rwa [margined_empty, List.map_id] at h

theorem trans (h : Behind p ls ms) (h' : Behind q ms ns) : Behind (q ++ p) ls ns := by
  cases h with
  | nil =>
    cases h'
    exact .nil
  | cons first l ls =>
    cases h' with
    | cons first' =>
      rw [← String.append_assoc, List.map_map, margined_comp]
      exact .cons (first' ++ first) l ls

/-- Lines that stand together still do so behind a margin. -/
theorem part {before after : List String} (h : Behind p (before ++ ls ++ after) ms) : Placed p ls ms := by
  cases before with
  | cons b before =>
    cases h with
    | cons first =>
      refine ⟨(first ++ b) :: before.map (margined p), ls.map (margined p), after.map (margined p), ?_, map p ls⟩
      simp
  | nil =>
    cases ls with
    | nil => exact ⟨[], [], ms, rfl, .nil⟩
    | cons l ls =>
      cases h with
      | cons first =>
        refine ⟨[], (first ++ l) :: ls.map (margined p), after.map (margined p), ?_, .cons first l ls⟩
        simp

end Behind

namespace Placed

theorem trans (h : Placed p ls ms) (h' : Placed q ms ns) : Placed (q ++ p) ls ns := by
  obtain ⟨before, between, after, rfl, hbehind⟩ := h
  obtain ⟨before', between', after', rfl, hbehind'⟩ := h'
  obtain ⟨before'', inner, after'', rfl, hinner⟩ := hbehind'.part
  exact ⟨before' ++ before'', inner, after'' ++ after', by simp, hbehind.trans hinner⟩

theorem of_behind (h : Behind p ls ms) : Placed p ls ms := ⟨[], ms, [], by simp, h⟩

theorem append (before ls after : List String) : Placed "" ls (before ++ ls ++ after) :=
  ⟨before, ls, after, rfl, .refl ls⟩

theorem trans_append (h : Placed p ls ms) (before after : List String) : Placed p ls (before ++ ms ++ after) := by
  simpa using h.trans (append before ms after)

end Placed

/-! ### Where blocks stand -/

theorem infix_layouts (hc : c ∈ cs) : layout c <:+: layouts cs := by
  induction cs with
  | nil => simp at hc
  | cons d r ih =>
    cases r with
    | nil =>
      obtain rfl := List.mem_singleton.1 hc
      exact List.infix_refl _
    | cons e r =>
      rw [layouts_cons_cons]
      rcases List.mem_cons.1 hc with rfl | hc
      · exact (List.prefix_append _ _).isInfix
      · exact (ih hc).trans ((List.suffix_cons _ _).trans (List.suffix_append _ _)).isInfix

theorem placed_layouts (hc : c ∈ cs) : Placed "" (layout c) (layouts cs) := by
  obtain ⟨before, after, h⟩ := infix_layouts hc
  rw [← h]
  exact .append before _ after

theorem quoteLine_eq (l : String) : quoteLine l = margined "> " l := by
  unfold quoteLine margined
  rw [show trimmed "> " = ">" by decide]

theorem placed_withBox (checked : Option Bool) (body : List String) : Placed "" body (withBox checked body) := by
  cases checked with
  | none => exact .of_behind (.refl body)
  | some c =>
    cases body with
    | nil => exact ⟨[], [], _, rfl, .nil⟩
    | cons l ls =>
      have h : Behind "" (l :: ls) _ := .cons ((if c then "[x]" else "[ ]") ++ " ") l ls
      rw [margined_empty, List.map_id] at h
      exact .of_behind h

theorem trimmed_indent (marker : String) : trimmed (indent marker) = "" := by
  simp [trimmed, indent, replicate, dropEndWhile]

/-- The first line of an item. -/
def itemHead (marker : String) (body : List String) : String :=
  marker ++ body.head?.elim "" (" " ++ ·)

theorem item_eq (marker : String) (body : List String) :
    item marker body = itemHead marker body :: body.tail.map (margined (indent marker)) := by
  cases body with
  | nil => simp [item, itemHead]
  | cons l ls =>
    have hline : (fun l => if l.isEmpty then l else replicate (marker.length + 1) ' ' ++ l) =
        margined (indent marker) := by
      funext l
      unfold margined
      split
      · next h => rw [trimmed_indent, String.isEmpty_iff.1 h]
      · rfl
    rw [item, hline]
    simp [itemHead, String.append_assoc]

theorem placed_body (marker : String) (body : List String) : Placed (indent marker) body (item marker body) := by
  rw [item_eq]
  cases body with
  | nil => exact ⟨[], [], _, rfl, .nil⟩
  | cons l ls =>
    have h : Behind (indent marker) (l :: ls) _ := .cons (marker ++ " ") l ls
    simpa [itemHead, String.append_assoc] using Placed.of_behind h

theorem placed_item {i : Nat} (hk : n.kind = .list) (he : n.childList[i]? = some e) :
    Placed "" (item (itemMarker n i) (itemBody e)) (layout n) := by
  have hmem : (e, i) ∈ n.childList.zipIdx := List.mem_zipIdx_iff_getElem?.2 he
  obtain ⟨before, after, h⟩ := List.append_of_mem hmem
  rw [layout_eq, hk]
  simp only [h, List.flatMap_append, List.flatMap_cons, ← List.append_assoc]
  exact .append _ _ _

theorem Part.placed (h : Part n p c) : Placed p (layout c) (layout n) := by
  cases h with
  | quoted hk hc =>
    have hmap : Behind "> " (layouts n.childList) (layout n) := by
      rw [layout_eq, hk, funext quoteLine_eq]
      exact .map "> " _
    simpa using (placed_layouts hc).trans (.of_behind hmap)
  | @listed i e _ hk he hc =>
    have hbody : Placed "" (layout c) (itemBody e) := (placed_layouts hc).trans (placed_withBox _ _)
    simpa using hbody.trans ((placed_body _ _).trans (placed_item hk he))
  | held hn hc =>
    rw [layout_other hn.form, hn.value, if_neg (by simp [hn.blocks])]
    exact placed_layouts hc

/-- Whatever is written with a block stands in its lines. -/
theorem Written.placed (h : Written n p m) : Placed p (layout m) (layout n) := by
  induction h with
  | self n => exact .of_behind (.refl _)
  | inside hp _ ih => exact ih.trans hp.placed

/-! ### Physical lines -/

theorem splitLines_joinLines (h : ∀ l ∈ ls, IsLine l) : ∃ after, splitLines (joinLines ls) = ls ++ after := by
  by_cases hne : ls = []
  · rw [hne]
    exact ⟨[""], rfl⟩
  -- a text that is not empty ends with a line feed, behind which another line begins
  by_cases hempty : joinWith "\n" ls = ""
  · have hsplit := splitLines_joinWith h hne
    rw [hempty] at hsplit
    exact ⟨[], by simp [joinLines, hempty, hsplit]⟩
  · have hall : ∀ l ∈ ls ++ [""], IsLine l := by
      rw [List.forall_mem_append]
      exact ⟨h, by decide⟩
    have hjoin : joinLines ls = joinWith "\n" (ls ++ [""]) := by
      rw [joinWith_concat "\n" "" hne]
      simp [joinLines, hempty]
    exact ⟨[""], by rw [hjoin, splitLines_joinWith hall (by simp)]⟩

/-- The lines under a root are the physical lines of its text. -/
theorem prefix_splitLines (hroot : n.kind = .root) (hn : n.toMarkdown = .ok s) (h : ∀ l ∈ layouts n.childList, IsLine l) :
    layouts n.childList <+: splitLines s := by
  rw [Node.toMarkdown, if_pos hroot, blocks?_eq] at hn
  obtain ⟨lines, hlines, rfl⟩ := map_eq_ok.1 hn
  obtain rfl := eq_layouts_of_blocks hlines
  obtain ⟨after, hafter⟩ := splitLines_joinLines h
  exact ⟨after, hafter.symm⟩

theorem begins_of_mem_layout (hk : c.kind = .blockquote) (hl : l ∈ layout c) : ['>'] <+: l.toList := by
  rw [layout_eq, hk] at hl
  obtain ⟨line, -, rfl⟩ := List.mem_map.1 hl
  unfold quoteLine
  split
  · decide
  · exact ⟨' ' :: line.toList, by simp⟩

/-- An item in the lines of a text: behind the margin, each line after its first is indented by its marker. -/
def Indented (margin marker : String) (body lines : List String) : Prop :=
  ∃ before first rest after, lines = before ++ ((first ++ itemHead marker body) :: rest) ++ after ∧
    rest = body.tail.map (margined (margin ++ indent marker)) ∧
    ∀ l ∈ rest, l = trimmed margin ∨ (margin ++ indent marker).toList <+: l.toList

theorem Placed.indented {marker : String} {body : List String} (h : Placed p (item marker body) ms) :
    Indented p marker body ms := by
  obtain ⟨before, between, after, rfl, hbehind⟩ := h
  rw [item_eq] at hbehind
  cases hbehind with
  | cons first =>
    rw [List.map_map, margined_comp]
    refine ⟨before, first, _, after, rfl, rfl, fun l hl => ?_⟩
    obtain ⟨line, -, rfl⟩ := List.mem_map.1 hl
    unfold margined
    split
    · exact .inl (by simp [trimmed_append, trimmed_indent])
    · exact .inr ⟨line.toList, by simp⟩

/-- With words of one line after its code fences, what is written of a tree consists of lines if and only if the text
of each heading in it has no line feed. Then the physical lines of a quote under the root begin with an angle bracket,
and the items of each list, at any depth, are indented by their markers. -/
theorem isLine_written_iff (hcode : ∀ e ∈ n.nodes, e.kind = .code →
      IsLine ((e.data.str? "lang").getD "") ∧ IsLine ((e.data.str? "meta").getD "")) :
    (∀ ls, block n = .ok ls →
      ((∀ l ∈ ls, IsLine l) ↔ ∀ p m, Written n p m → m.kind = .heading → IsLine (inlines m.childList))) ∧
    (∀ ls, blocks n.childList = .ok ls →
      ((∀ l ∈ ls, IsLine l) ↔
        ∀ c ∈ n.childList, ∀ p m, Written c p m → m.kind = .heading → IsLine (inlines m.childList)) ∧
      ∀ s, n.kind = .root → n.toMarkdown = .ok s → (∀ l ∈ ls, IsLine l) →
        (∀ c ∈ n.childList, c.kind = .blockquote →
          ∃ qs, block c = .ok qs ∧ qs <:+: splitLines s ∧ ∀ l ∈ qs, ['>'] <+: l.toList) ∧
        ∀ c ∈ n.childList, ∀ p m, Written c p m → m.kind = .list → ∀ i e, m.childList[i]? = some e →
          ∃ mark body, marker ((m.data.bool? "ordered").getD false) (firstNumber m) i = .ok mark ∧
            blocks e.childList = .ok body ∧ Indented p mark (withBox (e.data.bool? "checked") body) (splitLines s)) := by
  refine ⟨fun ls hls => ?_, fun ls hls => ⟨?_, fun s hroot hs hlines => ?_⟩⟩
  · rw [eq_layout_of_block hls]
    exact isLine_layout_iff_heading hcode
  · rw [eq_layouts_of_blocks hls, forall_layouts]
    exact forall_congr' fun c => forall_congr' fun hc => isLine_layout_iff_heading (Node.forall_child hcode hc)
  obtain ⟨hcounts, rfl⟩ := blocks_eq_ok.1 hls
  have hphysical := prefix_splitLines hroot hs hlines
  constructor
  · intro c hc hk
    exact ⟨_, block_eq_ok.2 ⟨hcounts c hc, rfl⟩, (infix_layouts hc).trans hphysical.isInfix, fun l => begins_of_mem_layout hk⟩
  intro c hc p m hm hk i e he
  obtain ⟨hmarker, hbody⟩ := item_of_list hk (fun q k hm' => hcounts c hc _ _ (hm.trans hm')) he
  refine ⟨itemMarker m i, layouts e.childList, hmarker, hbody, ?_⟩
  obtain ⟨after, hafter⟩ := hphysical
  have hblocks : Placed p (item (itemMarker m i) (itemBody e)) (layouts n.childList) := by
    simpa using ((placed_item hk he).trans hm.placed).trans (placed_layouts hc)
  rw [← hafter, ← itemBody]
  simpa using (hblocks.trans_append [] after).indented

def firstStep : Node :=
  .parent .listItem [.parent .paragraph [.literal .text "a\nb"], (Node.literal .code "x\n\ny").withData "lang" "c"]

def steps : Node :=
  ((Node.parent .list [firstStep, .parent .listItem [.parent .paragraph [.literal .text "d"]]]).withData "ordered" true).withData
    "start" (9 : Nat)

/-- A heading and a numbered list in a quote; the marker of the list grows. -/
def plan : Node := .parent .root [.parent .blockquote [.parent .heading [.literal .text "Plan"], steps]]

theorem isLine_written_plan :
    (∀ e ∈ plan.nodes, e.kind = .code →
      IsLine ((e.data.str? "lang").getD "") ∧ IsLine ((e.data.str? "meta").getD "")) ∧
    plan.toMarkdown = .ok "> # Plan\n>\n> 9. a\n>    b\n>\n>    ```c\n>    x\n>\n>    y\n>    ```\n> 10. d\n" ∧
    (∀ c ∈ plan.childList, ∀ p m, Written c p m → m.kind = .heading → IsLine (inlines m.childList)) ∧
    Indented "> " "9." ["a", "b", "", "```c", "x", "", "y", "```"]
      ["> # Plan", ">", "> 9. a", ">    b", ">", ">    ```c", ">    x", ">", ">    y", ">    ```", "> 10. d", ""] := by
  have hcode : ∀ e ∈ plan.nodes, e.kind = .code →
      IsLine ((e.data.str? "lang").getD "") ∧ IsLine ((e.data.str? "meta").getD "") := by decide +kernel
  have hlines : blocks plan.childList = .ok
      ["> # Plan", ">", "> 9. a", ">    b", ">", ">    ```c", ">    x", ">", ">    y", ">    ```", "> 10. d"] := by
    decide +kernel
  have htext : plan.toMarkdown = .ok
      "> # Plan\n>\n> 9. a\n>    b\n>\n>    ```c\n>    x\n>\n>    y\n>    ```\n> 10. d\n" := by decide +kernel
  obtain ⟨-, hwritten⟩ := isLine_written_iff hcode
  obtain ⟨hheadings, hphysical⟩ := hwritten _ hlines
  have hsteps : Part (.parent .blockquote [.parent .heading [.literal .text "Plan"], steps]) "> " steps :=
    .quoted rfl (by simp [Node.childList, Node.parent])
  obtain ⟨-, hitems⟩ := hphysical _ rfl htext (by decide)
  obtain ⟨mark, body, hmark, hbody, hindented⟩ :=
    hitems _ List.mem_cons_self _ _ (.inside hsteps (.self steps)) rfl 0 firstStep rfl
  have hnine : marker ((steps.data.bool? "ordered").getD false) (firstNumber steps) 0 = .ok "9." := by decide +kernel
  have hinner : blocks firstStep.childList = .ok ["a", "b", "", "```c", "x", "", "y", "```"] := by decide +kernel
  obtain rfl := Except.ok.inj (hnine.symm.trans hmark)
  obtain rfl := Except.ok.inj (hinner.symm.trans hbody)
  have hsplit : splitLines "> # Plan\n>\n> 9. a\n>    b\n>\n>    ```c\n>    x\n>\n>    y\n>    ```\n> 10. d\n" =
      ["> # Plan", ">", "> 9. a", ">    b", ">", ">    ```c", ">    x", ">", ">    y", ">    ```", "> 10. d", ""] := by
    decide +kernel
  rw [hsplit] at hindented
  exact ⟨hcode, htext, hheadings.1 (by decide), hindented⟩

def quotedHeading : Node := .parent .root [.parent .blockquote [.parent .heading [.literal .text "a\nb"]]]

/-- A heading is written as one line though its text may have several, and the later ones leave a quote around it. -/
theorem not_forall_isLine_block :
    (¬ ∀ n : Node, (∀ e ∈ n.nodes, e.kind = .code →
        IsLine ((e.data.str? "lang").getD "") ∧ IsLine ((e.data.str? "meta").getD "")) →
      ∀ ls, block n = .ok ls → ∀ l ∈ ls, IsLine l) ∧
      quotedHeading.toMarkdown.map splitLines = .ok ["> # a", "b", ""] := by
  refine ⟨fun h => ?_, by decide +kernel⟩
  have hlines := h quotedHeading (by decide +kernel) ["> # a\nb"] (by decide +kernel)
  exact absurd hlines (by decide)

end RichDoc.Writer
