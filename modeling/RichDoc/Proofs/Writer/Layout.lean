import RichDoc.Proofs.Results
import RichDoc.Proofs.Tree.Nodes
import RichDoc.Writer.Block

/-!
# Layout

`layout n` are the lines of the block `n` if the numbers of items may be of any size. A block is either a few lines of
its own or holds other blocks: its parts (`Part`), which stand in its lines behind a margin. `Written n p m`: the block
`m` is a part of a part … of `n`, behind the margin `p`. The writer gives the layout or overflows, and it gives the layout
if and only if the numbers of each list that is written are words (`block_eq_ok`).
-/

namespace RichDoc.Writer
open Text

variable {n m c e : Node} {cs es : List Node} {p q s : String} {ls : List String} {ordered : Bool} {start i : Nat}

/-! ### Numbers of any size -/

/-- The marker of item number `i` of a list that starts at `start`. -/
def anyMarker (ordered : Bool) (start i : Nat) : String := if ordered then toString (start + i) ++ "." else "-"

mutual
/-- The lines of a block. -/
def layout : Node → List String
  | ⟨k, v, cs, _, d⟩ =>
    match k with
    | .paragraph => splitLines (inlines? cs)
    | .heading => [headingMarks (d.nat? "depth") ++ " " ++ inlines? cs]
    | .thematicBreak => ["---"]
    | .code => codeBlock (v.getD "") (d.str? "lang") (d.str? "meta")
    | .html => splitLines (v.getD "")
    | .blockquote => (layouts? cs).map quoteLine
    | .list => layoutItems? ((d.bool? "ordered").getD false) ((d.nat? "start").getD 1) cs
    | .table => table (alignmentsOf d) (rowsOf (cs.getD []))
    | _ =>
      match v with
      | some v => splitLines v
      | none => if (cs.getD []).all isPhrasing then splitLines (inlines? cs) else layouts? cs

/-- The lines of the children of a node. -/
def layouts? : Option (List Node) → List String
  | none => []
  | some cs => layouts cs

/-- The lines of blocks, with a blank line between neighbours. -/
def layouts : List Node → List String
  | [] => []
  | [n] => layout n
  | n :: r => layout n ++ "" :: layouts r

/-- The lines of the items of a list. -/
def layoutItems? (ordered : Bool) (start : Nat) : Option (List Node) → List String
  | none => []
  | some cs => layoutItems ordered start 0 cs

/-- The lines of items, the first of which is number `i`. -/
def layoutItems (ordered : Bool) (start i : Nat) : List Node → List String
  | [] => []
  | ⟨_, _, cs, _, d⟩ :: r =>
    item (anyMarker ordered start i) (withBox (d.bool? "checked") (layouts? cs)) ++ layoutItems ordered start (i + 1) r
end

/-! ### Blocks by their kind -/

/-- The number that a list asks for its first item. -/
def firstNumber (n : Node) : Nat := (n.data.nat? "start").getD 1

/-- The marker of item number `i` of a list. -/
def itemMarker (n : Node) (i : Nat) : String := anyMarker ((n.data.bool? "ordered").getD false) (firstNumber n) i

/-- The lines of an item's body. -/
def itemBody (e : Node) : List String := withBox (e.data.bool? "checked") (layouts e.childList)

/-- The kinds of blocks that are written in a way of their own. -/
def hasOwnForm : Kind → Bool
  | .paragraph | .heading | .thematicBreak | .code | .html | .blockquote | .list | .table => true
  | _ => false

theorem layouts?_eq (cs : Option (List Node)) : layouts? cs = layouts (cs.getD []) := by
  cases cs <;> rfl

theorem blocks?_eq (cs : Option (List Node)) : blocks? cs = blocks (cs.getD []) := by
  cases cs <;> rfl

theorem inlines?_eq (cs : Option (List Node)) : inlines? cs = inlines (cs.getD []) := by
  cases cs <;> rfl

theorem layouts_cons_cons (c d : Node) (r : List Node) : layouts (c :: d :: r) = layout c ++ "" :: layouts (d :: r) := rfl

theorem layoutItems_cons (ordered : Bool) (start i : Nat) (e : Node) (r : List Node) :
    layoutItems ordered start i (e :: r) =
      item (anyMarker ordered start i) (itemBody e) ++ layoutItems ordered start (i + 1) r := by
  obtain ⟨k, v, cs, s, d⟩ := e
  rw [layoutItems, layouts?_eq]
  rfl

theorem layoutItems_eq (ordered : Bool) (start i : Nat) (es : List Node) : layoutItems ordered start i es =
    (es.zipIdx i).flatMap fun (e, j) => item (anyMarker ordered start j) (itemBody e) := by
  induction es generalizing i with
  | nil => rfl
  | cons e r ih => rw [layoutItems_cons, ih, List.zipIdx_cons, List.flatMap_cons]

theorem layoutItems?_eq (ordered : Bool) (start : Nat) (cs : Option (List Node)) : layoutItems? ordered start cs =
    (cs.getD []).zipIdx.flatMap fun (e, i) => item (anyMarker ordered start i) (itemBody e) := by
  cases cs with
  | none => rfl
  | some cs => exact layoutItems_eq ordered start 0 cs

theorem layout_eq (n : Node) : layout n = match n.kind with
    | .paragraph => splitLines (inlines n.childList)
    | .heading => [headingMarks (n.data.nat? "depth") ++ " " ++ inlines n.childList]
    | .thematicBreak => ["---"]
    | .code => codeBlock (n.value.getD "") (n.data.str? "lang") (n.data.str? "meta")
    | .html => splitLines (n.value.getD "")
    | .blockquote => (layouts n.childList).map quoteLine
    | .list => n.childList.zipIdx.flatMap fun (e, i) => item (itemMarker n i) (itemBody e)
    | .table => table (alignmentsOf n.data) (rowsOf n.childList)
    | _ =>
      match n.value with
      | some v => splitLines v
      | none => if n.childList.all isPhrasing then splitLines (inlines n.childList) else layouts n.childList := by
  obtain ⟨k, v, cs, s, d⟩ := n
  cases k <;> cases v <;> simp only [layout, inlines?_eq, layouts?_eq, layoutItems?_eq]
  all_goals rfl

theorem layout_other (hform : hasOwnForm n.kind = false) : layout n = match n.value with
    | some v => splitLines v
    | none => if n.childList.all isPhrasing then splitLines (inlines n.childList) else layouts n.childList := by
  rw [layout_eq]
  split
  case h_9 => rfl
  all_goals
    next hk => simp [hk, hasOwnForm] at hform

/-! ### The parts of a block -/

/-- The columns of a marker and the blank after it. -/
def indent (marker : String) : String := replicate (marker.length + 1) ' '

/-- The children are written as blocks, and the block has no lines of its own. -/
structure HoldsBlocks (n : Node) : Prop where
  form : hasOwnForm n.kind = false
  value : n.value = none
  blocks : n.childList.all isPhrasing = false

/-- The blocks that stand in the lines of a block, and the margin they stand behind. -/
inductive Part (n : Node) : String → Node → Prop where
  | quoted {c : Node} (hk : n.kind = .blockquote) (hc : c ∈ n.childList) : Part n "> " c
  | listed {i : Nat} {e c : Node} (hk : n.kind = .list) (he : n.childList[i]? = some e) (hc : c ∈ e.childList) :
    Part n (indent (itemMarker n i)) c
  | held {c : Node} (h : HoldsBlocks n) (hc : c ∈ n.childList) : Part n "" c

/-- The blocks that are written with a block, itself and at any depth, and the margins they stand behind. -/
inductive Written : Node → String → Node → Prop where
  | self (n : Node) : Written n "" n
  | inside {n c m : Node} {p q : String} (hp : Part n p c) (h : Written c q m) : Written n (p ++ q) m

theorem Part.exists_child (h : Part n p c) : ∃ d ∈ n.childList, c ∈ d.nodes := by
  cases h with
  | quoted hk hc => exact ⟨c, hc, c.self_mem_nodes⟩
  | listed hk he hc => exact ⟨_, List.mem_of_getElem? he, Node.mem_nodes_of_child (Node.self_mem_nodes _) hc⟩
  | held h hc => exact ⟨c, hc, c.self_mem_nodes⟩

theorem Part.forall_nodes {P : Node → Prop} (h : Part n p c) (hn : ∀ e ∈ n.nodes, P e) : ∀ e ∈ c.nodes, P e := by
  cases h with
  | quoted hk hc => exact Node.forall_child hn hc
  | listed hk he hc => exact Node.forall_child (Node.forall_child hn (List.mem_of_getElem? he)) hc
  | held h hc => exact Node.forall_child hn hc

theorem Written.forall_nodes {P : Node → Prop} (h : Written n p m) (hn : ∀ e ∈ n.nodes, P e) : P m := by
  induction h with
  | self n => exact hn n n.self_mem_nodes
  | inside hp _ ih => exact ih (hp.forall_nodes hn)

theorem Written.trans (h : Written n p m) (h' : Written m q c) : Written n (p ++ q) c := by
  induction h with
  | self => rwa [String.empty_append]
  | inside hp _ ih => exact String.append_assoc ▸ .inside hp (ih h')

theorem not_part (hform : hasOwnForm n.kind = true) (hq : n.kind ≠ .blockquote) (hl : n.kind ≠ .list) : ¬ Part n p c := by
  intro h
  cases h with
  | quoted hk hc => exact hq hk
  | listed hk he hc => exact hl hk
  | held h hc => exact absurd h.form (by simp [hform])

theorem part_blockquote (hk : n.kind = .blockquote) {P : Node → Prop} :
    (∀ p c, Part n p c → P c) ↔ ∀ c ∈ n.childList, P c := by
  refine ⟨fun h c hc => h _ c (.quoted hk hc), fun h p c hp => ?_⟩
  cases hp with
  | quoted _ hc => exact h c hc
  | listed hl => simp [hk] at hl
  | held hn => exact absurd hn.form (by simp [hk, hasOwnForm])

theorem part_list (hk : n.kind = .list) {P : Node → Prop} :
    (∀ p c, Part n p c → P c) ↔ ∀ e ∈ n.childList, ∀ c ∈ e.childList, P c := by
  constructor
  · intro h e he c hc
    obtain ⟨i, hi⟩ := List.mem_iff_getElem?.1 he
    exact h _ c (.listed hk hi hc)
  · intro h p c hp
    cases hp with
    | quoted hq => simp [hk] at hq
    | listed _ he hc => exact h _ (List.mem_of_getElem? he) c hc
    | held hn => exact absurd hn.form (by simp [hk, hasOwnForm])

theorem part_other (hform : hasOwnForm n.kind = false) {P : Node → Prop} :
    (∀ p c, Part n p c → P c) ↔ (HoldsBlocks n → ∀ c ∈ n.childList, P c) := by
  refine ⟨fun h hn c hc => h _ c (.held hn hc), fun h p c hp => ?_⟩
  cases hp with
  | quoted hk => simp [hk, hasOwnForm] at hform
  | listed hk => simp [hk, hasOwnForm] at hform
  | held hn hc => exact h hn c hc

/-! ### Numbers that are words -/

/-- The numbers of the items are words if the block is an ordered list. -/
def CountsUp (n : Node) : Prop :=
  n.kind = .list → n.data.bool? "ordered" = some true →
    n.childList = [] ∨ firstNumber n + n.childList.length ≤ UInt64.size

theorem marker_eq_ok : marker ordered start i = .ok s ↔
    (ordered = true → start + i < UInt64.size) ∧ s = anyMarker ordered start i := by
  unfold marker anyMarker
  cases ordered with
  | false => simp [pure, Except.pure, eq_comm]
  | true =>
    have hok (w : UInt64) : (pure (toString w ++ ".") : Except Overflow String) = .ok s ↔ s = toString w.toNat ++ "." := by
      rw [eq_comm]
      exact ⟨fun h => Except.ok.inj h, fun h => congrArg Except.ok h⟩
    simp only [if_true, true_implies, bind_eq_ok, wordSum_eq_ok, hok]
    constructor
    · rintro ⟨w, hw, rfl⟩
      exact ⟨hw ▸ w.toNat_lt_size, by rw [hw]⟩
    · rintro ⟨hlt, rfl⟩
      exact ⟨.ofNat (start + i), UInt64.toNat_ofNat_of_lt' hlt, by rw [UInt64.toNat_ofNat_of_lt' hlt]⟩

theorem block_blockquote (hk : n.kind = .blockquote) : block n = (blocks n.childList).map (List.map quoteLine) := by
  obtain ⟨k, v, cs, s, d⟩ := n
  obtain rfl : k = .blockquote := hk
  rw [block, blocks?_eq]
  rfl

theorem block_list (hk : n.kind = .list) :
    block n = items ((n.data.bool? "ordered").getD false) (firstNumber n) 0 n.childList := by
  obtain ⟨k, v, cs, s, d⟩ := n
  obtain rfl : k = .list := hk
  cases cs <;> rfl

theorem block_other (hform : hasOwnForm n.kind = false) : block n = match n.value with
    | some v => .ok (splitLines v)
    | none => if n.childList.all isPhrasing then .ok (splitLines (inlines n.childList)) else blocks n.childList := by
  obtain ⟨k, v, cs, s, d⟩ := n
  cases k <;> simp only [hasOwnForm, Bool.true_eq_false] at hform
  all_goals
    cases v <;> simp only [block, inlines?_eq, blocks?_eq]
    rfl

theorem block_of_holdsBlocks (h : HoldsBlocks n) : block n = blocks n.childList := by
  rw [block_other h.form, h.value, if_neg (by simp [h.blocks])]

/-- A block without parts is written in any case. -/
theorem block_of_leaf (hq : n.kind ≠ .blockquote) (hl : n.kind ≠ .list) (hn : ¬ HoldsBlocks n) :
    block n = .ok (layout n) := by
  cases hform : hasOwnForm n.kind with
  | false =>
    rw [block_other hform, layout_other hform]
    cases hv : n.value with
    | some v => rfl
    | none =>
      cases hall : n.childList.all isPhrasing with
      | true => rfl
      | false => exact absurd ⟨hform, hv, hall⟩ hn
  | true =>
    obtain ⟨k, v, cs, s, d⟩ := n
    cases k <;> simp [hasOwnForm] at hform hq hl
    all_goals rfl

theorem block_of_ownForm (hform : hasOwnForm n.kind = true) (hq : n.kind ≠ .blockquote) (hl : n.kind ≠ .list) :
    block n = .ok (layout n) :=
  block_of_leaf hq hl fun h => absurd h.form (by simp [hform])

theorem items_cons (ordered : Bool) (start i : Nat) (e : Node) (r : List Node) : items ordered start i (e :: r) = do
    let mark ← marker ordered start i
    let body ← blocks e.childList
    return item mark (withBox (e.data.bool? "checked") body) ++ (← items ordered start (i + 1) r) := by
  obtain ⟨k, v, cs, s, d⟩ := e
  rw [items, blocks?_eq]
  rfl

/-- Each block is written as laid out, or not at all. -/
def AsLaidOut (cs : List Node) : Prop := ∀ c ∈ cs, ∀ ls, block c = .ok ls → ls = layout c

theorem blocks_step (h : AsLaidOut cs) :
    blocks cs = .ok ls ↔ (∀ c ∈ cs, block c = .ok (layout c)) ∧ ls = layouts cs := by
  induction cs generalizing ls with
  | nil => simp [blocks, layouts, eq_comm]
  | cons c r ih =>
    obtain ⟨hc, hr⟩ := List.forall_mem_cons.1 h
    cases r with
    | nil =>
      rw [blocks, layouts, List.forall_mem_singleton]
      constructor
      · intro hls
        obtain rfl := hc ls hls
        exact ⟨hls, rfl⟩
      · rintro ⟨hls, rfl⟩
        exact hls
    | cons d r =>
      rw [blocks, bind_eq_ok, layouts_cons_cons, List.forall_mem_cons]
      · constructor
        · rintro ⟨lines, hlines, hrest⟩
          obtain rfl := hc lines hlines
          obtain ⟨rest, hrest, heq⟩ := bind_eq_ok.1 hrest
          obtain ⟨hall, rfl⟩ := (ih hr).1 hrest
          exact ⟨⟨hlines, hall⟩, (Except.ok.inj heq).symm⟩
        · rintro ⟨⟨hlines, hall⟩, rfl⟩
          exact ⟨_, hlines, bind_eq_ok.2 ⟨_, (ih hr).2 ⟨hall, rfl⟩, rfl⟩⟩
      · simp

theorem items_step (h : ∀ e ∈ es, AsLaidOut e.childList) : items ordered start i es = .ok ls ↔
    (ordered = true → es = [] ∨ start + i + es.length ≤ UInt64.size) ∧
      (∀ e ∈ es, ∀ c ∈ e.childList, block c = .ok (layout c)) ∧ ls = layoutItems ordered start i es := by
  induction es generalizing i ls with
  | nil => simp [items, layoutItems, eq_comm]
  | cons e r ih =>
    obtain ⟨he, hr⟩ := List.forall_mem_cons.1 h
    have hcount : (ordered = true → start + i < UInt64.size) ∧
        (ordered = true → r = [] ∨ start + (i + 1) + r.length ≤ UInt64.size) ↔
          (ordered = true → e :: r = [] ∨ start + i + (e :: r).length ≤ UInt64.size) := by
      rw [← forall_and]
      refine forall_congr' fun _ => ?_
      cases r with
      | nil =>
        simp only [true_or, and_true, reduceCtorEq, false_or, List.length_cons, List.length_nil]
        omega
      | cons f r =>
        simp only [reduceCtorEq, false_or, List.length_cons]
        omega
    rw [items_cons, ← hcount, layoutItems_cons, List.forall_mem_cons]
    simp only [bind_eq_ok, marker_eq_ok, blocks_step he, ih hr]
    constructor
    · rintro ⟨mark, ⟨hfirst, rfl⟩, body, ⟨hbody, rfl⟩, rest, ⟨hrest, hall, rfl⟩, heq⟩
      exact ⟨⟨hfirst, hrest⟩, ⟨hbody, hall⟩, (Except.ok.inj heq).symm⟩
    · rintro ⟨⟨hfirst, hrest⟩, ⟨hbody, hall⟩, rfl⟩
      exact ⟨_, ⟨hfirst, rfl⟩, _, ⟨hbody, rfl⟩, _, ⟨hrest, hall, rfl⟩, rfl⟩

/-- A block is written if it counts up and its parts are written. -/
theorem block_step (h : ∀ p c, Part n p c → ∀ ls, block c = .ok ls → ls = layout c) : block n = .ok ls ↔
    CountsUp n ∧ (∀ p c, Part n p c → block c = .ok (layout c)) ∧ ls = layout n := by
  have hcountsUp (hl : n.kind ≠ .list) : CountsUp n := fun hk => absurd hk hl
  by_cases hq : n.kind = .blockquote
  · rw [part_blockquote hq] at h ⊢
    rw [and_iff_right (hcountsUp (by simp [hq])), block_blockquote hq, layout_eq, hq, map_eq_ok]
    simp only [blocks_step h]
    constructor
    · rintro ⟨lines, ⟨hall, rfl⟩, rfl⟩
      exact ⟨hall, rfl⟩
    · rintro ⟨hall, rfl⟩
      exact ⟨_, ⟨hall, rfl⟩, rfl⟩
  by_cases hl : n.kind = .list
  · rw [part_list hl] at h ⊢
    rw [block_list hl, items_step h, layout_eq, hl, layoutItems_eq]
    have hcount : CountsUp n ↔ ((n.data.bool? "ordered").getD false = true →
        n.childList = [] ∨ firstNumber n + 0 + n.childList.length ≤ UInt64.size) := by
      simp [CountsUp, hl, Option.getD_eq_iff]
    rw [hcount]
    rfl
  by_cases hn : HoldsBlocks n
  · rw [part_other hn.form] at h ⊢
    rw [and_iff_right (hcountsUp hl), block_of_holdsBlocks hn, layout_other hn.form, hn.value,
      if_neg (by simp [hn.blocks]), blocks_step (h hn)]
    simp [hn]
  · have hnone (p : String) (c : Node) : ¬ Part n p c := by
      intro hp
      cases hp with
      | quoted hk => exact hq hk
      | listed hk => exact hl hk
      | held hh => exact hn hh
    rw [block_of_leaf hq hl hn]
    simp [hcountsUp hl, hnone, eq_comm]

/-- A block is written if and only if the numbers in it are words, and as it is laid out. -/
theorem block_eq_ok : block n = .ok ls ↔ (∀ p m, Written n p m → CountsUp m) ∧ ls = layout n := by
  induction n using Node.induct_below generalizing ls with
  | step n ih =>
    have hpart (p : String) (c : Node) (hp : Part n p c) (ls : List String) :
        block c = .ok ls ↔ (∀ q m, Written c q m → CountsUp m) ∧ ls = layout c := by
      obtain ⟨d, hd, hc⟩ := hp.exists_child
      exact ih d hd c hc
    rw [block_step fun p c hp ls h => ((hpart p c hp ls).1 h).2]
    constructor
    · rintro ⟨hn, hparts, rfl⟩
      refine ⟨fun p m h => ?_, rfl⟩
      cases h with
      | self => exact hn
      | inside hp h => exact ((hpart _ _ hp _).1 (hparts _ _ hp)).1 _ _ h
    · rintro ⟨h, rfl⟩
      exact ⟨h _ _ (.self n), fun p c hp => (hpart p c hp _).2 ⟨fun q m hm => h _ _ (.inside hp hm), rfl⟩, rfl⟩

theorem blocks_eq_ok :
    blocks cs = .ok ls ↔ (∀ c ∈ cs, ∀ p m, Written c p m → CountsUp m) ∧ ls = layouts cs := by
  rw [blocks_step fun c _ ls h => (block_eq_ok.1 h).2]
  exact and_congr_left' (forall₂_congr fun c _ => block_eq_ok.trans (and_iff_left rfl))

/-- What is written with a block is written by itself. -/
theorem block_of_written (h : ∀ q c, Written n q c → CountsUp c) (hm : Written n p m) : block m = .ok (layout m) :=
  block_eq_ok.2 ⟨fun _ _ hc => h _ _ (hm.trans hc), rfl⟩

/-- The items of a list have markers, and the blocks in them are written. -/
theorem item_of_list (hk : n.kind = .list) (h : ∀ q c, Written n q c → CountsUp c) (he : n.childList[i]? = some e) :
    marker ((n.data.bool? "ordered").getD false) (firstNumber n) i = .ok (itemMarker n i) ∧
      blocks e.childList = .ok (layouts e.childList) := by
  constructor
  · refine marker_eq_ok.2 ⟨fun hordered => ?_, rfl⟩
    obtain ⟨hi, -⟩ := List.getElem?_eq_some_iff.1 he
    rcases h _ _ (.self n) hk (by simpa [Option.getD_eq_iff] using hordered) with hnil | hle
    · simp [hnil] at hi
    · exact Nat.lt_of_lt_of_le (Nat.add_lt_add_left hi _) hle
  · exact blocks_eq_ok.2 ⟨fun c hc q m hm => h _ _ (.inside (.listed hk he hc) hm), rfl⟩

theorem eq_layout_of_block (h : block n = .ok ls) : ls = layout n := (block_eq_ok.1 h).2

theorem eq_layouts_of_blocks (h : blocks cs = .ok ls) : ls = layouts cs := (blocks_eq_ok.1 h).2

end RichDoc.Writer
