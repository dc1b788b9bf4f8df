import Mathlib.Algebra.Order.BigOperators.Group.List
import Mathlib.Algebra.Order.Group.Nat
import Mathlib.Data.List.Forall2
import RichDoc.Proofs.Writer.Blocks
import RichDoc.Proofs.Writer.CodeSpans
import RichDoc.Proofs.Writer.Escapes

/-!
# Reading the rows of a table

A row is read by its bars: the outer ones go, and a cell ends at each bar without a backslash before it (`readRow`).
A bar in a cell counts as one more (`length_readRow_rowLine`). Text has no such bar, since its bars are escaped. Code,
raw HTML, and the destinations and titles of links and images are written with the bars they have: a row has its
cells if and only if no such bar stands anywhere in them (`length_readRow_iff`).
-/

namespace RichDoc.Writer
open Text

variable {escaped lineStart : Bool} {c x : Char} {p q : List Char} {s v url : String} {title : Option String}
  {n m e r : Node} {cs : List Node} {cells : List String}

/-! ### The reader -/

/-- A bar that ends a cell; `escaped` says whether a backslash stands before the character. -/
def endsCell (escaped : Bool) (c : Char) : Bool := c == '|' && !escaped

def splitCells (escaped : Bool) : List Char → List (List Char)
  | [] => [[]]
  | c :: r =>
    if endsCell escaped c then [] :: splitCells (c == '\\') r
    else (splitCells (c == '\\') r).modifyHead (c :: ·)

/-- A line less the bars at its ends. -/
def dropOuter (line : List Char) : List Char :=
  let inner := if line.head? = some '|' then line.tail else line
  if inner.getLast? = some '|' ∧ inner.dropLast.getLast? ≠ some '\\' then inner.dropLast else inner

def readRow (line : String) : List String := (splitCells false (dropOuter line.toList)).map String.ofList

/-- The number of bars that end a cell. -/
def bars (escaped : Bool) : List Char → Nat
  | [] => 0
  | c :: r => (if endsCell escaped c then 1 else 0) + bars (c == '\\') r

theorem length_splitCells (escaped : Bool) (p : List Char) : (splitCells escaped p).length = bars escaped p + 1 := by
  induction p generalizing escaped with
  | nil => rfl
  | cons c r ih =>
    rw [splitCells, bars]
    split
    · rw [List.length_cons, ih]
      omega
    · rw [List.length_modifyHead, ih, Nat.zero_add]

theorem bars_append (escaped : Bool) (p q : List Char) :
    bars escaped (p ++ q) = bars escaped p + bars (isAfter '\\' escaped p) q := by
  induction p generalizing escaped with
  | nil => simp [bars, isAfter_nil]
  | cons c r ih => rw [List.cons_append, bars, bars, ih, isAfter_cons, Nat.add_assoc]

theorem bars_of_not_mem (h : '|' ∉ p) : bars escaped p = 0 := by
  induction p generalizing escaped with
  | nil => rfl
  | cons c r ih =>
    rw [List.mem_cons, not_or] at h
    rw [bars, ih h.2, endsCell, beq_false_of_ne (Ne.symm h.1)]
    rfl

theorem bars_cons (hc : c ≠ '|') (p : List Char) : bars escaped (c :: p) = bars (c == '\\') p := by
  rw [bars, endsCell, beq_false_of_ne hc]
  exact Nat.zero_add _

/-! ### Rows -/

theorem dropOuter_rowLine (p : List Char) : dropOuter ('|' :: ' ' :: (p ++ [' ', '|'])) = ' ' :: (p ++ [' ']) := by
  have hinner : ' ' :: (p ++ [' ', '|']) = (' ' :: (p ++ [' '])) ++ ['|'] := by simp
  have hblank : (' ' :: (p ++ [' '])).getLast? = some ' ' := by rw [← List.cons_append, List.getLast?_concat]
  have houter : ('|' :: ' ' :: (p ++ [' ', '|'])).head? = some '|' := rfl
  rw [dropOuter, if_pos houter, List.tail_cons, hinner, List.getLast?_concat, List.dropLast_concat, hblank]
  exact if_pos ⟨rfl, by decide⟩

theorem bars_joinWith (hne : cells ≠ []) : bars false (joinWith " | " cells).toList + 1 =
    cells.length + (cells.map fun cell => bars false cell.toList).sum := by
  fun_induction joinWith " | " cells with
  | case1 => exact absurd rfl hne
  | case2 s => simp [Nat.add_comm]
  | case3 s r hr ih =>
    have hsep : " | ".toList = [' ', '|', ' '] := rfl
    have hbar (escaped : Bool) : bars escaped [' ', '|', ' '] = 1 := by cases escaped <;> rfl
    have hafter (escaped : Bool) : isAfter '\\' escaped [' ', '|', ' '] = false := rfl
    have hrest := ih hr
    rw [String.toList_append, String.toList_append, hsep, bars_append, bars_append, hbar, isAfter_append, hafter,
      List.length_cons, List.map_cons, List.sum_cons]
    omega

theorem length_readRow_rowLine (hne : cells ≠ []) :
    (readRow (rowLine cells)).length = cells.length + (cells.map fun cell => bars false cell.toList).sum := by
  have hline : (rowLine cells).toList = '|' :: ' ' :: ((joinWith " | " cells).toList ++ [' ', '|']) := by simp [rowLine]
  have hend (escaped : Bool) : bars escaped [' '] = 0 := rfl
  rw [readRow, List.length_map, length_splitCells, hline, dropOuter_rowLine, bars_cons (by decide), bars_append, hend,
    Nat.add_zero]
  exact bars_joinWith hne

theorem bars_lineFeeds (escaped : Bool) (p : List Char) :
    bars escaped (p.map fun c => if c = '\n' then ' ' else c) = bars escaped p := by
  induction p generalizing escaped with
  | nil => rfl
  | cons c r ih =>
    rw [List.map_cons, bars, bars, ih]
    by_cases hc : c = '\n'
    · subst hc
      rfl
    · rw [if_neg hc]

theorem bars_cellText (c : Node) : bars false (cellText c).toList = bars false (inlines c.childList).toList := by
  rw [cellText, String.toList_ofList, bars_lineFeeds, inlines?_eq]
  rfl

/-! ### The constructs of a line -/

theorem bars_escapeFrom (escaped lineStart : Bool) (p : List Char) : bars escaped (escapeFrom lineStart p) = 0 := by
  induction p generalizing escaped lineStart with
  | nil => rfl
  | cons c r ih =>
    rw [escapeFrom_cons, bars_append, ih, Nat.add_zero, written]
    split
    · -- the backslash is before the character, whatever that is
      cases escaped <;> simp [bars, endsCell]
    · next h =>
      refine bars_of_not_mem fun hmem => ?_
      obtain rfl := List.mem_singleton.1 hmem
      exact h (isEscaped_iff.2 (.inr (.inl (by decide))))

theorem bars_escape (escaped : Bool) (s : String) : bars escaped (escape s).toList = 0 := by
  rw [escape, String.toList_ofList]
  exact bars_escapeFrom _ _ _

theorem bars_codeSpan (escaped : Bool) (v : String) : bars escaped (codeSpan v).toList = bars false v.toList := by
  have hticks (escaped : Bool) (k : Nat) : bars escaped (List.replicate k tick) = 0 :=
    bars_of_not_mem fun h => absurd (List.eq_of_mem_replicate h) (by decide)
  have hafter (k : Nat) : isAfter '\\' escaped (List.replicate (k + 1) tick) = false := by
    rw [List.replicate_succ', isAfter_append]
    rfl
  have hbetween : bars false (betweenMarks v.toList) = bars false v.toList := by
    unfold betweenMarks
    split
    · have hend (escaped : Bool) : bars escaped [' '] = 0 := rfl
      rw [bars_cons (by decide), bars_append, hend, Nat.add_zero]
      rfl
    · rfl
  rw [codeSpan_eq, String.toList_ofList, List.append_nil, bars_append, bars_append, hticks, hticks, hafter, hbetween,
    Nat.zero_add, Nat.add_zero]

theorem bars_escapeQuotes (escaped : Bool) (p : List Char) : bars escaped (escapeQuotes p) = bars escaped p := by
  induction p generalizing escaped with
  | nil => rfl
  | cons c r ih =>
    rw [escapeQuotes]
    split
    · next h =>
      subst h
      rw [bars_cons (by decide), bars_cons (by decide), bars_cons (by decide), ih]
    · rw [bars, bars, ih]

theorem bars_linkTail (escaped : Bool) (url : String) (title : Option String) :
    bars escaped (linkTail url title).toList = bars false url.toList + bars false (title.getD "").toList := by
  have hend (escaped : Bool) : bars escaped [')'] = 0 := rfl
  have htitle (escaped : Bool) : bars escaped (titleTail title).toList = bars false (title.getD "").toList := by
    cases title with
    | none => rfl
    | some t =>
      have hquote (escaped : Bool) : bars escaped ['\x22'] = 0 := rfl
      rw [toList_titleTail, bars_cons (by decide), bars_cons (by decide), bars_append, bars_escapeQuotes, hquote, Nat.add_zero]
      rfl
  rw [toList_linkTail, bars_cons (by decide), bars_append, bars_append, htitle, hend, Nat.add_zero]
  rfl

/-! ### Bars in a tree -/

/-- What is written before the children of a node, if they are written. -/
def opening (m : Node) : Option String :=
  match m.kind with
  | .emphasis => some "*"
  | .strong => some "**"
  | .delete => some "~~"
  | .link => some "["
  | .text | .inlineCode | .break | .html | .image => none
  | _ => if m.value.isSome then none else some ""

/-- A node writes no bar of its own that ends a cell. What it writes as it stands is code, HTML, the destination and
the title of a link, and the value of a node that is no inline content. -/
def HasNoBar (escaped : Bool) (m : Node) : Prop :=
  match m.kind with
  | .text | .emphasis | .strong | .delete | .break => True
  | .inlineCode => bars false (m.value.getD "").toList = 0
  | .html => bars escaped (m.value.getD "").toList = 0
  | .link | .image =>
    bars false ((m.data.str? "url").getD "").toList = 0 ∧ bars false ((m.data.str? "title").getD "").toList = 0
  | _ => ∀ v, m.value = some v → bars escaped v.toList = 0

/-- The nodes that are written in a line of text, and the text before each. -/
inductive Stands : List Node → String → Node → Prop where
  | here (cs : List Node) (m : Node) (ds : List Node) : Stands (cs ++ m :: ds) (inlines cs) m
  | inside (cs : List Node) {e : Node} (ds : List Node) {m : Node} {s before : String} (ho : opening e = some s)
    (h : Stands e.childList before m) : Stands (cs ++ e :: ds) (inlines cs ++ s ++ before) m

theorem bars_wrapped {before inner after : String} (hbefore : ∀ escaped, bars escaped before.toList = 0) :
    bars escaped (before ++ inner ++ after).toList =
      bars (isAfter '\\' escaped before.toList) inner.toList +
        bars (isAfter '\\' escaped (before ++ inner).toList) after.toList := by
  rw [String.toList_append, String.toList_append, bars_append, bars_append, hbefore, Nat.zero_add]

theorem bars_bracket_tailOf (escaped : Bool) (d : Data) : bars escaped ("]" ++ tailOf d).toList =
    bars false ((d.str? "url").getD "").toList + bars false ((d.str? "title").getD "").toList := by
  have hbracket : bars escaped "]".toList = 0 := rfl
  rw [String.toList_append, bars_append, hbracket, tailOf, bars_linkTail, Nat.zero_add]

/-- A node writes no bar that ends a cell if there is none of its own and none in its children. -/
theorem bars_inline (escaped : Bool) (m : Node) : bars escaped (inline m).toList = 0 ↔
    HasNoBar escaped m ∧
      ∀ s, opening m = some s → bars (isAfter '\\' escaped s.toList) (inlines m.childList).toList = 0 := by
  have hmark (mark : String) (hmark : ∀ escaped, bars escaped mark.toList = 0) :
      bars escaped (mark ++ inlines m.childList ++ mark).toList = 0 ↔
        ∀ s, some mark = some s → bars (isAfter '\\' escaped s.toList) (inlines m.childList).toList = 0 := by
    rw [bars_wrapped hmark, hmark, Nat.add_zero]
    simp
  rw [inline_eq]
  unfold HasNoBar opening
  cases m.kind
  case text => simp [bars_escape]
  case emphasis => simpa using hmark "*" fun _ => rfl
  case strong => simpa using hmark "**" fun _ => rfl
  case delete => simpa using hmark "~~" fun _ => rfl
  case inlineCode => simp [bars_codeSpan]
  case «break» => cases escaped <;> simp [bars, endsCell]
  case html => simp
  case link =>
    have hopen (escaped : Bool) : bars escaped "[".toList = 0 := rfl
    dsimp only
    rw [String.append_assoc, bars_wrapped hopen, bars_bracket_tailOf]
    simp
    omega
  case image =>
    have hopen (escaped : Bool) : bars escaped "![".toList = 0 := rfl
    dsimp only
    rw [String.append_assoc, bars_wrapped hopen, bars_escape, bars_bracket_tailOf]
    simp
  -- the other nodes are a value or their children
  all_goals
    cases m.value with
    | none => simp [isAfter_nil]
    | some v => simp

theorem bars_inlines (escaped : Bool) (cs : List Node) : bars escaped (inlines cs).toList = 0 ↔
    ∀ xs m ys, cs = xs ++ m :: ys → bars (isAfter '\\' escaped (inlines xs).toList) (inline m).toList = 0 := by
  induction cs generalizing escaped with
  | nil => simp [inlines, bars]
  | cons c r ih =>
    rw [inlines, String.toList_append, bars_append, Nat.add_eq_zero_iff, ih]
    constructor
    · rintro ⟨hc, hr⟩ xs m ys h
      rcases List.cons_eq_append_iff.1 h with ⟨rfl, hm⟩ | ⟨xs, rfl, hm⟩
      · obtain ⟨rfl, rfl⟩ := List.cons.inj hm
        exact hc
      · rw [inlines, String.toList_append, isAfter_append]
        exact hr xs m ys hm
    · intro h
      refine ⟨h [] c r rfl, fun xs m ys hm => ?_⟩
      have hat := h (c :: xs) m ys (by rw [hm]; rfl)
      rwa [inlines, String.toList_append, isAfter_append] at hat

theorem bars_inlines_iff (escaped : Bool) (cs : List Node) : bars escaped (inlines cs).toList = 0 ↔
    ∀ before m, Stands cs before m → HasNoBar (isAfter '\\' escaped before.toList) m := by
  suffices hall : ∀ n : Node, ∀ escaped, bars escaped (inlines n.childList).toList = 0 ↔
      ∀ before m, Stands n.childList before m → HasNoBar (isAfter '\\' escaped before.toList) m from
    hall (.parent .root cs) escaped
  intro n
  induction n using Node.induct with
  | step n ih =>
    intro escaped
    rw [bars_inlines]
    generalize n.childList = cs at ih ⊢
    constructor
    · intro h before m hm
      cases hm with
      | here xs m ys => exact ((bars_inline _ _).1 (h xs m ys rfl)).1
      | @inside xs e ys m s before ho hm =>
        have hin := ((bars_inline _ _).1 (h xs e ys rfl)).2 s ho
        rw [String.toList_append, String.toList_append, isAfter_append, isAfter_append]
        exact (ih e (by simp) _).1 hin before m hm
    · intro h xs m ys hcs
      subst hcs
      refine (bars_inline _ _).2 ⟨h _ m (.here xs m ys), fun s ho => (ih m (by simp) _).2 fun before e he => ?_⟩
      have hat := h _ e (.inside xs ys ho he)
      rwa [String.toList_append, String.toList_append, isAfter_append, isAfter_append] at hat

/-! ### Tables -/

def lineOf (r : Node) : String := rowLine (r.childList.map cellText)

theorem block_table {head : Node} {rows : List Node} (hk : n.kind = .table) (hcs : n.childList = head :: rows) :
    block n = .ok (lineOf head :: rowLine (delimiters (alignmentsOf n.data) (head.childList.map cellText)) ::
      rows.map lineOf) := by
  rw [block_of_ownForm (by simp [hk, hasOwnForm]) (by simp [hk]) (by simp [hk]), layout_eq, hk, hcs]
  simp [rowsOf, table, lineOf]

theorem length_delimiters (alignments : List (Option String)) (cells : List String) :
    (delimiters alignments cells).length = cells.length := by
  induction cells generalizing alignments with
  | nil => rfl
  | cons cell r ih => rw [delimiters, List.length_cons, ih, List.length_cons]

theorem bars_of_mem_delimiters {alignments : List (Option String)} (hs : s ∈ delimiters alignments cells) :
    bars false s.toList = 0 := by
  induction cells generalizing alignments with
  | nil => simp [delimiters] at hs
  | cons cell r ih =>
    rcases List.mem_cons.1 hs with rfl | hs
    · unfold delimiter
      split <;> rfl
    · exact ih hs

theorem length_readRow_delimiters (alignments : List (Option String)) (hne : cells ≠ []) :
    (readRow (rowLine (delimiters alignments cells))).length = cells.length := by
  have hlength := length_delimiters alignments cells
  have hdelimiters : delimiters alignments cells ≠ [] := by
    rw [← List.length_pos_iff, hlength]
    exact List.length_pos_iff.2 hne
  have hsum : ((delimiters alignments cells).map fun cell => bars false cell.toList).sum = 0 := by
    rw [List.sum_eq_zero_iff]
    intro k hk
    obtain ⟨cell, hcell, rfl⟩ := List.mem_map.1 hk
    exact bars_of_mem_delimiters hcell
  rw [length_readRow_rowLine hdelimiters, hlength, hsum, Nat.add_zero]

theorem length_readRow_lineOf (hne : r.childList ≠ []) : (readRow (lineOf r)).length =
    r.childList.length + (r.childList.map fun c => bars false (inlines c.childList).toList).sum := by
  have hcells : r.childList.map cellText ≠ [] := by simpa using hne
  rw [lineOf, length_readRow_rowLine hcells, List.length_map, List.map_map]
  simp only [Function.comp_def, bars_cellText]

/-- A row is read as just its cells if nothing else stands in it, and no bar of what is written in the cells is bare. -/
theorem length_lineOf_iff (hne : r.childList ≠ []) :
    (readRow (lineOf r)).length = r.childList.countP (·.kind = .tableCell) ↔
      ∀ c ∈ r.childList, c.kind = .tableCell ∧
        ∀ before m, Stands c.childList before m → HasNoBar (isAfter '\\' false before.toList) m := by
  have hcount : r.childList.countP (·.kind = .tableCell) ≤ r.childList.length := List.countP_le_length
  have hcells : r.childList.countP (·.kind = .tableCell) = r.childList.length ↔
      ∀ c ∈ r.childList, c.kind = .tableCell := by simp [List.countP_eq_length]
  have hsum : (r.childList.map fun c => bars false (inlines c.childList).toList).sum = 0 ↔
      ∀ c ∈ r.childList, bars false (inlines c.childList).toList = 0 := by
    simp [List.sum_eq_zero_iff]
  rw [length_readRow_lineOf hne]
  simp only [← bars_inlines_iff, forall_and]
  rw [← hcells, ← hsum]
  omega

/-- The lines of a table have no line feed, and the delimiters are as many as the cells of the first row. The line of
a row has as many cells as the row if and only if the code, the HTML, the destinations and the titles in it have no bar
that ends a cell where they stand. -/
theorem length_readRow_iff {head : Node} {rows : List Node} (hk : n.kind = .table) (hcs : n.childList = head :: rows)
    (hrows : ∀ r ∈ n.childList, r.childList ≠ []) :
    ∃ first delims others, block n = .ok (first :: delims :: others) ∧
      (∀ l ∈ first :: delims :: others, IsLine l) ∧
      (readRow delims).length = head.childList.length ∧
      List.Forall₂ (fun r l => (readRow l).length = r.childList.countP (·.kind = .tableCell) ↔
        ∀ c ∈ r.childList, c.kind = .tableCell ∧
          ∀ before m, Stands c.childList before m → HasNoBar (isAfter '\\' false before.toList) m)
        n.childList (first :: others) := by
  refine ⟨_, _, _, block_table hk hcs, ?_, ?_, ?_⟩
  · intro l hl
    rw [eq_layout_of_block (block_table hk hcs), layout_eq, hk] at hl
    exact isLine_of_mem_table hl
  · have hhead : head.childList ≠ [] := hrows head (hcs ▸ List.mem_cons_self)
    rw [length_readRow_delimiters _ (by simpa using hhead), List.length_map]
  · rw [← List.map_cons, ← hcs, List.forall₂_map_right_iff, List.forall₂_same]
    intro r hr
    exact length_lineOf_iff (hrows r hr)

/-- A bar in the text of a cell, and a link with one in its text. -/
def barRow : Node :=
  .parent .tableRow [.parent .tableCell [.literal .text "a|b"],
    .parent .tableCell [(Node.parent .link [.literal .text "c|"]).withData "url" "u"]]

theorem length_readRow_barRow :
    (∀ r ∈ (Node.parent .table [barRow]).childList, r.childList ≠ []) ∧
    block (.parent .table [barRow]) = .ok ["| a\\|b | [c\\|](u) |", "| --- | --- |"] ∧
    (readRow "| --- | --- |").length = 2 ∧
    ∀ c ∈ barRow.childList, c.kind = .tableCell ∧
      ∀ before m, Stands c.childList before m → HasNoBar (isAfter '\\' false before.toList) m := by
  have hcells : ∀ r ∈ (Node.parent .table [barRow]).childList, r.childList ≠ [] := by decide +kernel
  have hblock : block (.parent .table [barRow]) = .ok ["| a\\|b | [c\\|](u) |", "| --- | --- |"] := by decide +kernel
  obtain ⟨first, delims, others, heq, -, hdelims, hrows⟩ :=
    length_readRow_iff (n := .parent .table [barRow]) rfl rfl hcells
  rw [hblock, Except.ok.injEq, List.cons.injEq, List.cons.injEq] at heq
  obtain ⟨rfl, rfl, rfl⟩ := heq
  exact ⟨hcells, hblock, hdelims, (List.forall₂_cons.1 hrows).1.1 (by decide +kernel)⟩

/-- A bar in code is written as it stands, and ends the cell. -/
theorem not_forall_length_readRow :
    ¬ ∀ n : Node, n.kind = .table →
      (∀ r ∈ n.childList, r.childList ≠ [] ∧ ∀ c ∈ r.childList, c.kind = .tableCell ∧
        ∀ d ∈ c.childList, ∀ m ∈ d.nodes, isPhrasing m = true) →
      ∀ head rows first rest, n.childList = head :: rows → block n = .ok (first :: rest) →
        (readRow first).length = head.childList.countP (·.kind = .tableCell) := by
  intro h
  let row : Node := .parent .tableRow [.parent .tableCell [.literal .inlineCode "a|b"]]
  have hlength := h (.parent .table [row]) rfl (by decide +kernel) row [] "| \x60a|b\x60 |" ["| --- |"] rfl (by decide +kernel)
  exact absurd hlength (by decide +kernel)

end RichDoc.Writer
