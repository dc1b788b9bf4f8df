import Mathlib.Data.List.SplitBy
import RichDoc.Proofs.Writer.Margins

/-!
# Reading the items of a list

A list is read without knowing what is in it: an item begins at each line that is neither empty nor indented
(`groups`), and its lines come back when the columns of its marker are taken off (`unindent?`). The markers may grow
from one item to the next, and items may be empty or hold lists of their own; there is one group for each item
(`groups_block`), and it gives the lines of the item (`groups_block_list`).
-/

namespace RichDoc.Writer
open Text

variable {n : Node} {ls : List String}

/-- A line that goes on with the item above it. -/
def continues (line : String) : Bool := line.toList.head?.all (· = ' ')

/-- The lines of a list, parted before each line that is neither empty nor indented. -/
def groups (lines : List String) : List (List String) := lines.splitBy fun _ line => continues line

/-- A line less `k` blanks; an empty line has none. -/
def unindent? (k : Nat) (line : String) : Option String :=
  if line.isEmpty then some line
  else if List.replicate k ' ' <+: line.toList then some (String.ofList (line.toList.drop k))
  else none

/-- Lines and the same lines with a task box before the first of them. -/
inductive Boxed : Option Bool → List String → List String → Prop where
  | none (ls : List String) : Boxed none ls ls
  | alone (c : Bool) : Boxed (some c) [] [if c then "[x]" else "[ ]"]
  | before (c : Bool) (l : String) (ls : List String) :
    Boxed (some c) (l :: ls) (((if c then "[x] " else "[ ] ") ++ l) :: ls)

theorem boxed_itemBody (e : Node) : Boxed (e.data.bool? "checked") (layouts e.childList) (itemBody e) := by
  unfold itemBody
  cases e.data.bool? "checked" with
  | none => exact .none _
  | some c =>
    cases layouts e.childList with
    | nil => exact .alone c
    | cons l ls =>
      have hbox : (if c then "[x]" else "[ ]") ++ " " = if c then "[x] " else "[ ] " := by cases c <;> rfl
      rw [withBox, hbox]
      exact .before c l ls

/-! ### The first line of an item and the others -/

theorem exists_head_marker (ordered : Bool) (start i : Nat) :
    ∃ c, (anyMarker ordered start i).toList.head? = some c ∧ c ≠ ' ' := by
  cases ordered with
  | false => exact ⟨'-', by simp [anyMarker], by decide⟩
  | true =>
    obtain ⟨d, ds, hnumber⟩ : ∃ d ds, (toString (start + i)).toList = d :: ds := by
      refine List.exists_cons_of_ne_nil ?_
      rw [Nat.toString_eq_ofList_toDigits, String.toList_ofList]
      exact Nat.toDigits_ne_nil
    refine ⟨d, by rw [anyMarker, if_pos rfl, String.toList_append, hnumber]; rfl, ?_⟩
    rintro rfl
    exact absurd (isDigit_of_mem_number (hnumber ▸ List.mem_cons_self)) (by decide)

theorem not_continues_itemHead (ordered : Bool) (start i : Nat) (body : List String) :
    continues (itemHead (anyMarker ordered start i) body) = false := by
  obtain ⟨c, hhead, hc⟩ := exists_head_marker ordered start i
  rw [continues, itemHead, String.toList_append, List.head?_append, hhead]
  simpa using hc

theorem continues_margined (marker l : String) : continues (margined (indent marker) l) = true := by
  unfold margined
  split
  · rw [trimmed_indent]
    rfl
  · simp [continues, indent, replicate, List.replicate_succ]

theorem unindent?_margined (marker l : String) :
    unindent? (marker.length + 1) (margined (indent marker) l) = some l := by
  have hindent : (indent marker).toList = List.replicate (marker.length + 1) ' ' := String.toList_ofList
  unfold margined
  split
  · next h =>
    rw [trimmed_indent, String.isEmpty_iff.1 h]
    rfl
  · next h =>
    have hne : (indent marker ++ l).isEmpty = false := by simpa using fun _ => h
    have hpre : List.replicate (marker.length + 1) ' ' <+: (indent marker ++ l).toList := by
      rw [String.toList_append, hindent]
      exact List.prefix_append _ _
    rw [unindent?, if_neg (by simp [hne]), if_pos hpre]
    simp [hindent]

theorem mapM_unindent? (marker : String) (ls : List String) :
    (ls.map (margined (indent marker))).mapM (unindent? (marker.length + 1)) = some ls := by
  induction ls with
  | nil => rfl
  | cons l ls ih => simp [List.mapM_cons, unindent?_margined, ih]

/-! ### One group for each item -/

theorem groups_flatten {ls : List (List String)}
    (h : ∀ g ∈ ls, ∃ first rest, g = first :: rest ∧ continues first = false ∧ ∀ l ∈ rest, continues l = true) :
    groups ls.flatten = ls := by
  have hne : [] ∉ ls := by
    intro hnil
    obtain ⟨first, rest, hg, -⟩ := h [] hnil
    exact absurd hg (List.cons_ne_nil _ _).symm
  refine List.splitBy_flatten hne (fun g hg => ?_) (List.Pairwise.isChain ?_)
  · -- within a group no line is the first of an item, whatever line stands above it
    obtain ⟨first, rest, rfl, -, hrest⟩ := h g hg
    refine (List.pairwise_cons.2 ⟨hrest, ?_⟩).isChain
    exact List.pairwise_of_forall_mem_list fun _ _ => hrest
  · -- and each group begins with one
    refine List.pairwise_of_forall_mem_list fun g hg g' hg' => ?_
    obtain ⟨first, rest, rfl, -⟩ := h g hg
    obtain ⟨first', rest', rfl, hfirst', -⟩ := h g' hg'
    exact ⟨List.cons_ne_nil _ _, List.cons_ne_nil _ _, hfirst'⟩

/-- There is one group for each item: its lines. -/
theorem groups_layout (hk : n.kind = .list) :
    groups (layout n) = n.childList.zipIdx.map fun (e, i) => item (itemMarker n i) (itemBody e) := by
  rw [layout_eq, hk]
  simp only [List.flatMap_def]
  refine groups_flatten fun g hg => ?_
  obtain ⟨⟨e, i⟩, -, rfl⟩ := List.mem_map.1 hg
  refine ⟨_, _, item_eq _ _, not_continues_itemHead _ _ _ _, fun l hl => ?_⟩
  obtain ⟨line, -, rfl⟩ := List.mem_map.1 hl
  exact continues_margined _ _

theorem ne_nil_of_groups (h : groups ls ≠ []) : ls ≠ [] := by
  rintro rfl
  exact h rfl

/-- A list whose numbers are words is written if the blocks in its items are. -/
theorem block_eq_layout_of_list (hk : n.kind = .list) (hcounts : CountsUp n)
    (hitems : ∀ e ∈ n.childList, ∃ ls, blocks e.childList = .ok ls) : block n = .ok (layout n) := by
  refine block_eq_ok.2 ⟨fun p m hm => ?_, rfl⟩
  cases hm with
  | self => exact hcounts
  | inside hp hm =>
    cases hp with
    | quoted hq => simp [hk] at hq
    | held hh => exact absurd hh.form (by simp [hk, hasOwnForm])
    | listed _ he hc =>
      obtain ⟨ls, hls⟩ := hitems _ (List.mem_of_getElem? he)
      exact (blocks_eq_ok.1 hls).1 _ hc _ _ hm

/-- The lines of a list are read item by item. Parted before each line that is neither empty nor indented, they are as
many groups as there are items. A group begins with the marker, and with the first line of the item behind it if there
is one; the other lines of the item are the other lines of the group less the columns of the marker. -/
theorem groups_block_list (hk : n.kind = .list)
    (hcount : (n.data.bool? "ordered").getD false → (n.data.nat? "start").getD 1 + n.childList.length < UInt64.size)
    (hlines : ∀ e ∈ n.childList, ∃ ls, blocks e.childList = .ok ls ∧ ∀ l ∈ ls, IsLine l) :
    ∃ ls, block n = .ok ls ∧ (n.childList ≠ [] → splitLines (joinWith "\n" ls) = ls) ∧
      (groups ls).length = n.childList.length ∧
      ∀ i e, n.childList[i]? = some e →
        let mark := if (n.data.bool? "ordered").getD false then toString ((n.data.nat? "start").getD 1 + i) ++ "." else "-"
        ∃ inner body rest, blocks e.childList = .ok inner ∧ Boxed (e.data.bool? "checked") inner body ∧
          (groups ls)[i]? = some (body.head?.elim mark (mark ++ " " ++ ·) :: rest) ∧
          rest.mapM (unindent? (mark.length + 1)) = some body.tail := by
  have hgroups := groups_layout hk
  have hitems : ∀ e ∈ n.childList, blocks e.childList = .ok (layouts e.childList) ∧
      ∀ l ∈ layouts e.childList, IsLine l := by
    intro e he
    obtain ⟨ls, hls, hall⟩ := hlines e he
    obtain rfl := eq_layouts_of_blocks hls
    exact ⟨hls, hall⟩
  have hcounts : CountsUp n := fun _ hordered => .inr (Nat.le_of_lt (hcount (by simp [hordered])))
  refine ⟨layout n, block_eq_layout_of_list hk hcounts fun e he => ⟨_, (hitems e he).1⟩, fun hne => ?_, by simp [hgroups],
    fun i e he => ?_⟩
  · refine splitLines_joinWith ((forall_layout_list hk).2 fun e he => forall_layouts.1 (hitems e he).2) ?_
    apply ne_nil_of_groups
    simpa [hgroups] using hne
  · have hhead : itemHead (itemMarker n i) (itemBody e) =
        (itemBody e).head?.elim (itemMarker n i) (itemMarker n i ++ " " ++ ·) := by
      cases itemBody e <;> simp [itemHead, String.append_assoc]
    have hgroup : (groups (layout n))[i]? = some (itemHead (itemMarker n i) (itemBody e) ::
        (itemBody e).tail.map (margined (indent (itemMarker n i)))) := by
      rw [hgroups, ← item_eq]
      simp [he]
    exact ⟨_, _, _, (hitems e (List.mem_of_getElem? he)).1, boxed_itemBody e, hhead ▸ hgroup, mapM_unindent? _ _⟩

/-- An empty item and an open task with a list of its own, as numbers nine and ten. -/
def tasks : Node :=
  let bullet (s : String) : Node := .parent .listItem [.parent .paragraph [.literal .text s]]
  let task := (Node.parent .listItem [.parent .paragraph [.literal .text "a"],
    .parent .list [bullet "b", bullet "c"]]).withData "checked" false
  ((Node.parent .list [.parent .listItem [], task]).withData "ordered" true).withData "start" (9 : Nat)

theorem groups_block_tasks :
    (∀ e ∈ tasks.childList, ∃ ls, blocks e.childList = .ok ls ∧ ∀ l ∈ ls, IsLine l) ∧
    ∃ ls, block tasks = .ok ls ∧ splitLines (joinWith "\n" ls) = ls ∧ (groups ls).length = 2 ∧
      ∃ body rest, Boxed (some false) ["a", "", "- b", "- c"] body ∧
        (groups ls)[1]? = some (body.head?.elim "10." ("10." ++ " " ++ ·) :: rest) ∧
        rest.mapM (unindent? 4) = some body.tail := by
  have hempty : blocks ([] : List Node) = .ok [] := rfl
  have htask : blocks (Node.childList (tasks.childList.getLast (by decide))) = .ok ["a", "", "- b", "- c"] := by decide +kernel
  have hlines : ∀ e ∈ tasks.childList, ∃ ls, blocks e.childList = .ok ls ∧ ∀ l ∈ ls, IsLine l :=
    List.forall_mem_cons.2 ⟨⟨[], hempty, by simp⟩, List.forall_mem_singleton.2 ⟨_, htask, by decide⟩⟩
  obtain ⟨ls, hls, hphysical, hlength, hitems⟩ := groups_block_list (n := tasks) rfl (by decide +kernel) hlines
  obtain ⟨inner, body, rest, hinner, hboxed, hgroup, hrest⟩ := hitems 1 _ rfl
  obtain rfl := Except.ok.inj (htask.symm.trans hinner)
  exact ⟨hlines, ls, hls, hphysical (by decide +kernel), hlength, body, rest, hboxed, hgroup, hrest⟩

example : block tasks = .ok ["9.", "10. [ ] a", "", "    - b", "    - c"] := by decide +kernel

end RichDoc.Writer
