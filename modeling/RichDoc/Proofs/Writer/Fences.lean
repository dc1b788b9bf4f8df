import RichDoc.Proofs.Writer.Blocks

/-!
# Reading fenced code

`readFenced` reads code between fences line by line: the opening fence is three ticks or more, with words behind them
that have none, and the code goes on to the next line of at least as many ticks and nothing else but blanks. The fence
that is written is longer than any run of ticks in the code, so no line of the code closes it (`not_closesFence`), and
what is read is the code (`readFenced_block`), also if it is empty or ends with line feeds.
-/

namespace RichDoc.Writer
open Text

variable {n : Node} {l s code : String}

/-! ### The reader -/

/-- The number of blanks at the start of a line. -/
def indentation (line : String) : Nat := (line.toList.takeWhile (· = ' ')).length

/-- The number of ticks behind the blanks at the start of a line. -/
def ticks (line : String) : Nat := ((line.toList.dropWhile (· = ' ')).takeWhile (· = tick)).length

def afterTicks (line : String) : List Char := (line.toList.dropWhile (· = ' ')).dropWhile (· = tick)

/-- A line that opens a fence, with no ticks in the words behind it. -/
def opensFence (line : String) : Bool :=
  indentation line ≤ 3 && 3 ≤ ticks line && !(afterTicks line).contains tick

/-- A line that closes a fence of `k` ticks. -/
def closesFence (k : Nat) (line : String) : Bool :=
  indentation line ≤ 3 && k ≤ ticks line && (afterTicks line).all fun c => c = ' ' || c = '\t'

/-- A line less at most `k` blanks at its start. -/
def dropBlanks (k : Nat) (line : String) : String := String.ofList (line.toList.drop (min k (indentation line)))

/-- The code between the fences at the start of lines, and the lines after them. Code that no line closes goes on to
the last line. -/
def readFenced : List String → Option (String × List String)
  | [] => none
  | first :: rest =>
    if opensFence first then
      some (joinWith "\n" ((rest.takeWhile (! closesFence (ticks first) ·)).map (dropBlanks (indentation first))),
        (rest.dropWhile (! closesFence (ticks first) ·)).tail)
    else none

/-! ### The fence -/

def fenceLength (code : String) : Nat := max (longestRun tick code) 2 + 1

theorem three_le_fenceLength (code : String) : 3 ≤ fenceLength code := Nat.succ_le_succ (Nat.le_max_right ..)

theorem parts_fence (code : String) (hs : tick ∉ s.toList) :
    indentation (fence code ++ s) = 0 ∧ ticks (fence code ++ s) = fenceLength code ∧
      afterTicks (fence code ++ s) = s.toList := by
  have hline : (fence code ++ s).toList = List.replicate (fenceLength code) tick ++ s.toList := by
    rw [String.toList_append, fence, replicate, String.toList_ofList, fenceLength]
  have hfirst : (List.replicate (fenceLength code) tick ++ s.toList).head? ≠ some ' ' := by
    rw [fenceLength, List.replicate_succ, List.cons_append, List.head?_cons]
    decide
  obtain ⟨hnone, hall⟩ := run_at_start ' ' 0 hfirst
  obtain ⟨hticks, hafter⟩ := run_at_start tick (fenceLength code) fun h => hs (List.mem_of_head? h)
  rw [List.replicate_zero, List.nil_append] at hnone hall
  refine ⟨?_, ?_, ?_⟩
  · rw [indentation, hline, hnone, List.length_nil]
  · rw [ticks, hline, hall, hticks, List.length_replicate]
  · rw [afterTicks, hline, hall, hafter]

theorem opensFence_fence (code : String) (hs : tick ∉ s.toList) : opensFence (fence code ++ s) = true := by
  obtain ⟨hindent, hticks, hafter⟩ := parts_fence code hs
  simp [opensFence, hindent, hticks, hafter, three_le_fenceLength, hs]

theorem closesFence_fence (code : String) : closesFence (fenceLength code) (fence code) = true := by
  have hempty : tick ∉ "".toList := by decide
  obtain ⟨hindent, hticks, hafter⟩ := parts_fence code hempty
  rw [String.append_empty] at hindent hticks hafter
  simp [closesFence, hindent, hticks, hafter]

/-! ### The code -/

theorem run_infix_line (l : String) : List.replicate (ticks l) tick <:+: l.toList := by
  have hrun : (l.toList.dropWhile (· = ' ')).takeWhile (· = tick) = List.replicate (ticks l) tick := by
    refine List.eq_replicate_iff.2 ⟨rfl, fun c hc => ?_⟩
    simpa using List.all_eq_true.1 List.all_takeWhile c hc
  have hbegin : List.replicate (ticks l) tick <+: l.toList.dropWhile (· = ' ') := by
    rw [← hrun]
    exact List.takeWhile_prefix _
  have hend : l.toList.dropWhile (· = ' ') <:+ l.toList := List.dropWhile_suffix _
  exact hbegin.isInfix.trans hend.isInfix

theorem not_closesFence (hl : l ∈ codeLines code) : closesFence (fenceLength code) l = false := by
  have hinfix : l.toList <:+: code.toList := infix_of_mem_splitLines (mem_splitLines_of_mem_codeLines hl)
  have hle : ticks l ≤ longestRun tick code := le_longestRun ((run_infix_line l).trans hinfix)
  -- the fence is longer than any run in the code, whatever line it stands in
  have hlt : ticks l < fenceLength code := Nat.lt_succ_of_le (Nat.le_trans hle (Nat.le_max_left ..))
  simp [closesFence, Nat.not_le.2 hlt]

theorem dropBlanks_zero : dropBlanks 0 = id := by
  funext l
  simp [dropBlanks]

theorem readFenced_codeBlock {lang extra : Option String} (hinfo : tick ∉ (infoWords lang extra).toList)
    (after : List String) : readFenced (codeBlock code lang extra ++ after) = some (code, after) := by
  obtain ⟨hindent, hticks, -⟩ := parts_fence code hinfo
  have hcode : ∀ l ∈ codeLines code, (!closesFence (fenceLength code) l) = true := by
    intro l hl
    rw [not_closesFence hl]
    rfl
  have hlast : (!closesFence (fenceLength code) (fence code)) = false := by rw [closesFence_fence, Bool.not_true]
  rw [codeBlock_eq, List.cons_append, readFenced, if_pos (opensFence_fence code hinfo), hticks, hindent, List.append_assoc,
    List.singleton_append, List.takeWhile_append_of_pos hcode, List.dropWhile_append_of_pos hcode,
    List.takeWhile_cons_of_neg (by simp [hlast]), List.dropWhile_cons_of_neg (by simp [hlast]), List.append_nil,
    dropBlanks_zero, List.map_id, joinWith_codeLines, List.tail_cons]

/-- Fenced code is read back. Its lines are physical lines; the first opens a fence of some `k` ticks, the last closes
it and none of those between them does, and these put together are the code. So a reader gets the code, and goes on
with the line after the block. -/
theorem readFenced_block (hk : n.kind = .code)
    (hinfo : ∀ key ∈ ["lang", "meta"],
      tick ∉ ((n.data.str? key).getD "").toList ∧ IsLine ((n.data.str? key).getD "")) :
    ∃ ls, block n = .ok ls ∧ splitLines (joinWith "\n" ls) = ls ∧
      (∃ k first body last, ls = first :: (body ++ [last]) ∧ 3 ≤ k ∧ opensFence first ∧ ticks first = k ∧
        (∀ l ∈ body, closesFence k l = false) ∧ closesFence k last ∧ joinWith "\n" body = n.value.getD "") ∧
      ∀ after, readFenced (ls ++ after) = some (n.value.getD "", after) := by
  obtain ⟨⟨hlang, hlangLine⟩, hmeta, hmetaLine⟩ : (_ ∧ _) ∧ _ ∧ _ :=
    ⟨hinfo "lang" (by simp), hinfo "meta" (by simp)⟩
  have htick : tick ∉ (infoWords (n.data.str? "lang") (n.data.str? "meta")).toList :=
    (not_mem_infoWords (by decide)).2 ⟨hlang, hmeta⟩
  have hline : IsLine (infoWords (n.data.str? "lang") (n.data.str? "meta")) := isLine_infoWords.2 ⟨hlangLine, hmetaLine⟩
  have hblock : block n = .ok (codeBlock (n.value.getD "") (n.data.str? "lang") (n.data.str? "meta")) := by
    rw [block_of_ownForm (by simp [hk, hasOwnForm]) (by simp [hk]) (by simp [hk]), layout_eq, hk]
  refine ⟨_, hblock, splitLines_joinWith (forall_codeBlock.2 hline) (by simp [codeBlock_eq]), ?_, readFenced_codeBlock htick⟩
  exact ⟨_, _, _, _, codeBlock_eq _ _ _, three_le_fenceLength _, opensFence_fence _ htick, (parts_fence _ htick).2.1,
    fun l => not_closesFence, closesFence_fence _, joinWith_codeLines _⟩

/-- Code with a fence of three ticks in it, a blank line and a line feed at the end. -/
def quotedCode : Node := (Node.literal .code "```\n\n `` x\n").withData "lang" "md"

theorem readFenced_quotedCode :
    (∀ key ∈ ["lang", "meta"],
      tick ∉ ((quotedCode.data.str? key).getD "").toList ∧ IsLine ((quotedCode.data.str? key).getD "")) ∧
    ∃ ls, block quotedCode = .ok ls ∧ splitLines (joinWith "\n" ls) = ls ∧
      readFenced (ls ++ ["", "a"]) = some ("```\n\n `` x\n", ["", "a"]) := by
  have hinfo : ∀ key ∈ ["lang", "meta"],
      tick ∉ ((quotedCode.data.str? key).getD "").toList ∧ IsLine ((quotedCode.data.str? key).getD "") := by
    decide +kernel
  obtain ⟨ls, hls, hphysical, -, hread⟩ := readFenced_block (n := quotedCode) rfl hinfo
  exact ⟨hinfo, ls, hls, hphysical, hread ["", "a"]⟩

example : block quotedCode = .ok ["````md", "```", "", " `` x", "", "````"] := by cbv

end RichDoc.Writer
