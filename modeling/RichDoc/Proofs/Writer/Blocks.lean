import RichDoc.Proofs.Text.Lines
import RichDoc.Proofs.Writer.Layout

/-!
# The lines of blocks

What is written with a block consists of lines without line feeds if and only if this holds of the text of each heading
in it and of the words after each code fence in it (`isLine_layout_iff`); whatever else may hold a line feed is split at
it.
-/

namespace RichDoc.Writer
open Text

variable {n m c e : Node} {cs : List Node} {p q l line : String} {body : List String}
  {checked : Option Bool} {ordered : Bool} {start i j : Nat}

/-! ### Inline nodes by their kind -/

theorem inline_eq (n : Node) : inline n = match n.kind with
    | .text => escape (n.value.getD "")
    | .emphasis => "*" ++ inlines n.childList ++ "*"
    | .strong => "**" ++ inlines n.childList ++ "**"
    | .delete => "~~" ++ inlines n.childList ++ "~~"
    | .inlineCode => codeSpan (n.value.getD "")
    | .break => "\\\n"
    | .html => n.value.getD ""
    | .link => "[" ++ inlines n.childList ++ "]" ++ tailOf n.data
    | .image => "![" ++ escape ((n.data.str? "alt").getD "") ++ "]" ++ tailOf n.data
    | _ =>
      match n.value with
      | some v => v
      | none => inlines n.childList := by
  obtain ⟨k, v, cs, s, d⟩ := n
  cases k <;> cases v <;> simp only [inline, inlines?_eq]
  all_goals rfl

theorem toList_linkTail (url : String) (title : Option String) :
    (linkTail url title).toList = '(' :: (url.toList ++ ((titleTail title).toList ++ [')'])) := by
  simp [linkTail]

theorem toList_titleTail (t : String) :
    (titleTail (some t)).toList = ' ' :: '\x22' :: (escapeQuotes t.toList ++ ['\x22']) := by
  simp [titleTail]

theorem inlines_singleton (n : Node) : inlines [n] = inline n := String.append_empty

/-- The lines of code between the fences. -/
def codeLines (code : String) : List String := if code.isEmpty then [] else splitLines code

theorem mem_splitLines_of_mem_codeLines {code : String} (hl : l ∈ codeLines code) : l ∈ splitLines code := by
  unfold codeLines at hl
  split at hl
  · simp at hl
  · exact hl

theorem joinWith_codeLines (code : String) : joinWith "\n" (codeLines code) = code := by
  unfold codeLines
  split
  · next h => exact (String.isEmpty_iff.1 h).symm
  · exact joinWith_splitLines code

def infoWords (lang extra : Option String) : String := lang.getD "" ++ extra.elim "" (" " ++ ·)

theorem codeBlock_eq (code : String) (lang extra : Option String) :
    codeBlock code lang extra = (fence code ++ infoWords lang extra) :: (codeLines code ++ [fence code]) := by
  cases extra <;> rfl

/-! ### Line feeds -/

theorem forall_layouts : (∀ l ∈ layouts cs, IsLine l) ↔ ∀ c ∈ cs, ∀ l ∈ layout c, IsLine l := by
  have hempty : IsLine "" := by decide
  induction cs with
  | nil => simp [layouts]
  | cons c r ih =>
    cases r with
    | nil => simp [layouts]
    | cons d r =>
      rw [layouts_cons_cons, List.forall_mem_cons, List.forall_mem_append, List.forall_mem_cons]
      exact and_congr_right fun _ => (and_iff_right hempty).trans ih

theorem isLine_quoteLine : IsLine (quoteLine l) ↔ IsLine l := by
  unfold quoteLine
  split
  · next h =>
    rw [String.isEmpty_iff] at h
    subst h
    decide
  · rw [isLine_append]
    simp [show IsLine "> " by decide]

theorem forall_withBox : (∀ l ∈ withBox checked body, IsLine l) ↔ ∀ l ∈ body, IsLine l := by
  rcases checked with _ | c
  · rfl
  have hbox : IsLine ((if c then "[x]" else "[ ]") ++ " ") := by cases c <;> decide
  have halone : IsLine (if c then "[x]" else "[ ]") := (isLine_append.1 hbox).1
  cases body with
  | nil => simpa [withBox] using halone
  | cons line r => simp [withBox, isLine_append, isLine_append.1 hbox]

theorem isDigit_of_mem_number {k : Nat} {x : Char} (hx : x ∈ (toString k).toList) : x.isDigit := by
  rw [Nat.toString_eq_ofList_toDigits, String.toList_ofList] at hx
  exact Nat.isDigit_of_mem_toDigits (by decide) (by decide) hx

theorem isLine_anyMarker : IsLine (anyMarker ordered start i) := by
  unfold anyMarker
  split
  · refine isLine_append.2 ⟨fun h => ?_, by decide⟩
    exact absurd (isDigit_of_mem_number h) (by decide)
  · decide

theorem forall_item (marker : String) (hm : IsLine marker) :
    (∀ l ∈ item marker body, IsLine l) ↔ ∀ l ∈ body, IsLine l := by
  have hblank : IsLine " " := by decide
  cases body with
  | nil => simpa [item] using hm
  | cons line r =>
    have hrest (l : String) : IsLine (if l.isEmpty then l else indent marker ++ l) ↔ IsLine l := by
      split
      · rfl
      · exact isLine_append.trans (and_iff_right (isLine_replicate (by decide)))
    rw [item, List.forall_mem_cons, List.forall_mem_cons, List.forall_mem_map]
    refine and_congr (by simp [isLine_append, hm, hblank]) ?_
    exact forall_congr' fun l => forall_congr' fun _ => hrest l

theorem forall_layout_list (hk : n.kind = .list) :
    (∀ l ∈ layout n, IsLine l) ↔ ∀ e ∈ n.childList, ∀ c ∈ e.childList, ∀ l ∈ layout c, IsLine l := by
  have hitem (x : Node × Nat) :
      (∀ l ∈ item (itemMarker n x.2) (itemBody x.1), IsLine l) ↔ ∀ c ∈ x.1.childList, ∀ l ∈ layout c, IsLine l :=
    (forall_item _ isLine_anyMarker).trans (forall_withBox.trans forall_layouts)
  rw [layout_eq, hk, List.forall_mem_flatMap]
  constructor
  · intro h e he
    obtain ⟨i, hi⟩ := List.mem_iff_getElem?.1 he
    exact (hitem (e, i)).1 (h _ (List.mem_zipIdx_iff_getElem?.2 hi))
  · intro h x hx
    exact (hitem x).2 (h x.1 (List.mem_of_getElem? (List.mem_zipIdx_iff_getElem?.1 hx)))

theorem isLine_cellText (c : Node) : IsLine (cellText c) := by
  simp only [IsLine, cellText, String.toList_ofList, List.mem_map]
  rintro ⟨x, -, hx⟩
  split at hx
  · exact absurd hx (by decide)
  · next h => exact h hx

theorem isLine_joinWith {sep : String} {ls : List String} (hsep : IsLine sep) (hls : ∀ l ∈ ls, IsLine l) :
    IsLine (joinWith sep ls) := by
  fun_induction joinWith sep ls with
  | case1 => decide
  | case2 s => exact hls s List.mem_cons_self
  | case3 s r hr ih =>
    rw [List.forall_mem_cons] at hls
    exact isLine_append.2 ⟨isLine_append.2 ⟨hls.1, hsep⟩, ih hls.2⟩

theorem isLine_rowLine {cells : List String} (h : ∀ l ∈ cells, IsLine l) : IsLine (rowLine cells) :=
  isLine_append.2 ⟨isLine_append.2 ⟨by decide, isLine_joinWith (by decide) h⟩, by decide⟩

theorem isLine_of_mem_delimiters {alignments : List (Option String)} {cells : List String}
    (hl : l ∈ delimiters alignments cells) : IsLine l := by
  induction cells generalizing alignments with
  | nil => simp [delimiters] at hl
  | cons cell r ih =>
    rcases List.mem_cons.1 hl with rfl | hl
    · unfold delimiter
      split <;> decide
    · exact ih hl

theorem isLine_of_mem_table {alignments : List (Option String)} {rows : List Node}
    (hl : l ∈ table alignments (rowsOf rows)) : IsLine l := by
  have hrow (r : Node) : IsLine (rowLine (r.childList.map cellText)) := by
    refine isLine_rowLine fun cell hcell => ?_
    obtain ⟨c, -, rfl⟩ := List.mem_map.1 hcell
    exact isLine_cellText c
  cases rows with
  | nil => simp [rowsOf, table] at hl
  | cons head rows =>
    simp only [rowsOf, List.map_cons, table, List.mem_cons, List.map_map, List.mem_map] at hl
    rcases hl with rfl | rfl | ⟨r, -, rfl⟩
    · exact hrow head
    · exact isLine_rowLine fun _ => isLine_of_mem_delimiters
    · exact hrow r

theorem not_mem_infoWords {lang extra : Option String} {x : Char} (hx : x ≠ ' ') :
    x ∉ (infoWords lang extra).toList ↔ x ∉ (lang.getD "").toList ∧ x ∉ (extra.getD "").toList := by
  cases extra <;> simp [infoWords, hx]

theorem isLine_infoWords {lang extra : Option String} :
    IsLine (infoWords lang extra) ↔ IsLine (lang.getD "") ∧ IsLine (extra.getD "") :=
  not_mem_infoWords (by decide)

theorem forall_codeBlock {code : String} {lang extra : Option String} :
    (∀ l ∈ codeBlock code lang extra, IsLine l) ↔ IsLine (infoWords lang extra) := by
  have hfence : IsLine (fence code) := isLine_replicate (by decide)
  have hcode : ∀ l ∈ codeLines code, IsLine l :=
    fun l hl => isLine_of_mem_splitLines (mem_splitLines_of_mem_codeLines hl)
  rw [codeBlock_eq, List.forall_mem_cons, List.forall_mem_append, List.forall_mem_singleton, isLine_append,
    and_iff_right hfence, and_iff_left ⟨hcode, hfence⟩]

/-- Text that goes into one line as it stands has no line feed: the text of a heading, the words after a fence. -/
structure KeepsToLines (n : Node) : Prop where
  heading : n.kind = .heading → IsLine (inlines n.childList)
  code : n.kind = .code → IsLine ((n.data.str? "lang").getD "") ∧ IsLine ((n.data.str? "meta").getD "")

theorem keepsToLines_of_ne (hh : n.kind ≠ .heading) (hc : n.kind ≠ .code) : KeepsToLines n :=
  ⟨fun h => absurd h hh, fun h => absurd h hc⟩

theorem forall_layout_leaf (hform : hasOwnForm n.kind = true) (hq : n.kind ≠ .blockquote) (hl : n.kind ≠ .list) :
    (∀ l ∈ layout n, IsLine l) ↔ KeepsToLines n := by
  rw [layout_eq]
  split
  · next hk => exact iff_of_true (fun l => isLine_of_mem_splitLines) (keepsToLines_of_ne (by simp [hk]) (by simp [hk]))
  · next hk =>
    have hmarks : IsLine (headingMarks (n.data.nat? "depth") ++ " ") :=
      isLine_append.2 ⟨isLine_replicate (by decide), by decide⟩
    rw [List.forall_mem_singleton, isLine_append, and_iff_right hmarks]
    exact ⟨fun h => ⟨fun _ => h, by simp [hk]⟩, fun h => h.heading hk⟩
  · next hk => exact iff_of_true (by decide) (keepsToLines_of_ne (by simp [hk]) (by simp [hk]))
  · next hk =>
    rw [forall_codeBlock, isLine_infoWords]
    exact ⟨fun h => ⟨by simp [hk], fun _ => h⟩, fun h => h.code hk⟩
  · next hk => exact iff_of_true (fun l => isLine_of_mem_splitLines) (keepsToLines_of_ne (by simp [hk]) (by simp [hk]))
  · next hk => exact absurd hk hq
  · next hk => exact absurd hk hl
  · next hk => exact iff_of_true (fun l => isLine_of_mem_table) (keepsToLines_of_ne (by simp [hk]) (by simp [hk]))
  · simp_all [hasOwnForm]

theorem forall_layout_blockquote (hk : n.kind = .blockquote) :
    (∀ l ∈ layout n, IsLine l) ↔ ∀ c ∈ n.childList, ∀ l ∈ layout c, IsLine l := by
  rw [layout_eq, hk, List.forall_mem_map, ← forall_layouts]
  simp only [isLine_quoteLine]

theorem forall_layout_other (hform : hasOwnForm n.kind = false) :
    (∀ l ∈ layout n, IsLine l) ↔ (HoldsBlocks n → ∀ c ∈ n.childList, ∀ l ∈ layout c, IsLine l) := by
  rw [layout_other hform]
  cases hv : n.value with
  | some v => exact iff_of_true (fun l => isLine_of_mem_splitLines) fun h => absurd h.value (by simp [hv])
  | none =>
    cases hall : n.childList.all isPhrasing with
    | true => exact iff_of_true (fun l => isLine_of_mem_splitLines) fun h => absurd h.blocks (by simp [hall])
    | false => exact forall_layouts.trans ⟨fun h _ => h, fun h => h ⟨hform, hv, hall⟩⟩

/-- The lines of a block are lines if its own are and those of its parts are. -/
theorem forall_layout : (∀ l ∈ layout n, IsLine l) ↔
    KeepsToLines n ∧ ∀ p c, Part n p c → ∀ l ∈ layout c, IsLine l := by
  by_cases hq : n.kind = .blockquote
  · rw [forall_layout_blockquote hq, part_blockquote hq]
    exact (and_iff_right (keepsToLines_of_ne (by simp [hq]) (by simp [hq]))).symm
  by_cases hl : n.kind = .list
  · rw [forall_layout_list hl, part_list hl]
    exact (and_iff_right (keepsToLines_of_ne (by simp [hl]) (by simp [hl]))).symm
  cases hform : hasOwnForm n.kind with
  | true =>
    rw [forall_layout_leaf hform hq hl]
    exact ⟨fun h => ⟨h, fun p c hp => absurd hp (not_part hform hq hl)⟩, fun h => h.1⟩
  | false =>
    have hkeeps : KeepsToLines n := by
      refine keepsToLines_of_ne ?_ ?_ <;> intro hk <;> simp [hk, hasOwnForm] at hform
    rw [forall_layout_other hform, and_iff_right hkeeps, part_other hform]

/-- What is written consists of lines if and only if all that is written with it keeps to lines. -/
theorem isLine_layout_iff : (∀ l ∈ layout n, IsLine l) ↔ ∀ p m, Written n p m → KeepsToLines m := by
  -- the parts of a list are the children of its items, so the induction is from all nodes below
  induction n using Node.induct_below with
  | step n ih =>
    have hpart (p : String) (c : Node) (hp : Part n p c) :
        (∀ l ∈ layout c, IsLine l) ↔ ∀ q m, Written c q m → KeepsToLines m := by
      obtain ⟨d, hd, hc⟩ := hp.exists_child
      exact ih d hd c hc
    rw [forall_layout]
    constructor
    · rintro ⟨hn, hparts⟩ p m h
      cases h with
      | self => exact hn
      | inside hp h => exact (hpart _ _ hp).1 (hparts _ _ hp) _ _ h
    · intro h
      exact ⟨h _ _ (.self n), fun p c hp => (hpart p c hp).2 fun q m hm => h _ _ (.inside hp hm)⟩

/-- If the words after code fences are of one line, only headings matter. -/
theorem isLine_layout_iff_heading (hcode : ∀ e ∈ n.nodes, e.kind = .code →
      IsLine ((e.data.str? "lang").getD "") ∧ IsLine ((e.data.str? "meta").getD "")) :
    (∀ l ∈ layout n, IsLine l) ↔ ∀ p m, Written n p m → m.kind = .heading → IsLine (inlines m.childList) := by
  rw [isLine_layout_iff]
  exact ⟨fun h p m hm => (h p m hm).heading, fun h p m hm => ⟨h p m hm, hm.forall_nodes hcode⟩⟩

end RichDoc.Writer
