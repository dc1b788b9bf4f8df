import RichDoc.Proofs.Writer.Items

/-!
# The numbers of ordered lists

An item of an ordered list begins with its number and a full stop (`HasNumber`); a line shows one number at most
(`HasNumber.eq`). What is written is read item by item (`groups`), and the numbers found in a list are consecutive from
that of the first item on, wherever in the text the list stands (`hasNumbers_written`). The sum of first number and index
has to be a word, so a tree is not written at all if one of its lists goes on behind the largest word.
-/

namespace RichDoc.Writer
open Text

variable {n m : Node} {p line : String} {ls lines : List String} {i j k : Nat} {ks : List Nat}

/-- The line begins with the marker of an item of number `k`, alone or with a blank after it. -/
inductive HasNumber (k : Nat) : String → Prop where
  | alone : HasNumber k (toString k ++ ".")
  | before (rest : String) : HasNumber k (toString k ++ "." ++ " " ++ rest)

/-- Read item by item, the lines begin with the numbers `ks`. -/
def HasNumbers (ks : List Nat) (lines : List String) : Prop :=
  List.Forall₂ (fun k g => ∃ line ∈ g.head?, HasNumber k line) ks (groups lines)

/-! ### One number -/

theorem HasNumber.digits (h : HasNumber k line) : line.toList.takeWhile Char.isDigit = Nat.toDigits 10 k := by
  have hnumber : (toString k).toList = Nat.toDigits 10 k := by
    rw [Nat.toString_eq_ofList_toDigits, String.toList_ofList]
  have hdigits : ∀ x ∈ Nat.toDigits 10 k, x.isDigit := by
    intro x hx
    exact isDigit_of_mem_number (hnumber ▸ hx)
  obtain ⟨rest, hrest⟩ : ∃ rest, line.toList = Nat.toDigits 10 k ++ '.' :: rest := by
    cases h with
    | alone => exact ⟨[], by simp⟩
    | before rest => exact ⟨' ' :: rest.toList, by simp⟩
  rw [hrest, List.takeWhile_append_of_pos hdigits, List.takeWhile_cons_of_neg (by decide), List.append_nil]

/-- A line shows one number. -/
theorem HasNumber.eq (hi : HasNumber i line) (hj : HasNumber j line) : i = j := by
  have hdigits : Nat.toDigits 10 i = Nat.toDigits 10 j := hi.digits.symm.trans hj.digits
  rw [← Nat.ofDigitChars_ten_toDigits (n := i), hdigits, Nat.ofDigitChars_ten_toDigits]

theorem HasNumbers.eq {js : List Nat} (hks : HasNumbers ks lines) (hjs : HasNumbers js lines) : ks = js := by
  refine Relator.LeftUnique.forall₂ ?_ hks hjs
  rintro i g j ⟨line, hline, hi⟩ ⟨line', hline', hj⟩
  obtain rfl : line = line' := Option.some.inj (hline.symm.trans hline')
  exact hi.eq hj

theorem hasNumber_item (start i : Nat) (body : List String) :
    ∃ line ∈ (item (anyMarker true start i) body).head?, HasNumber (start + i) line := by
  cases body with
  | nil => exact ⟨_, rfl, .alone⟩
  | cons l ls => exact ⟨_, rfl, .before l⟩

/-! ### The numbers of a list -/

theorem hasNumbers_layout_iff (hk : m.kind = .list) (hord : m.data.bool? "ordered" = some true) :
    HasNumbers ks (layout m) ↔ ks = List.range' (firstNumber m) m.childList.length := by
  have hrange : HasNumbers (List.range' (firstNumber m) m.childList.length) (layout m) := by
    rw [HasNumbers, groups_layout hk]
    refine List.forall₂_iff_get.2 ⟨by simp, ?_⟩
    intro i hi _
    have hmarker (i : Nat) : itemMarker m i = anyMarker true (firstNumber m) i := by rw [itemMarker, hord]; rfl
    simpa [hmarker] using hasNumber_item (firstNumber m) i _
  constructor
  · intro h
    exact h.eq hrange
  · rintro rfl
    exact hrange

/-! ### Lists in a text -/

/-- The lines that a tree is written in; a root has none of its own. -/
def textLines (n : Node) : Except Overflow (List String) := if n.kind = .root then blocks n.childList else block n

/-- The block `m` is written with the tree, at any depth, behind the margin `p`. -/
def InText (n : Node) (p : String) (m : Node) : Prop :=
  if n.kind = .root then ∃ c ∈ n.childList, Written c p m else Written n p m

theorem toMarkdown_eq (n : Node) : n.toMarkdown = (textLines n).map joinLines := by
  rw [Node.toMarkdown, blocks?_eq]
  rfl

/-- A tree is written if and only if the numbers of each list in it are words. -/
theorem exists_textLines_iff : (∃ lines, textLines n = .ok lines) ↔ ∀ p m, InText n p m → CountsUp m := by
  unfold textLines InText
  split
  · simp only [blocks_eq_ok, exists_and_left, exists_eq, and_true]
    exact ⟨fun h p m ⟨c, hc, hm⟩ => h c hc p m hm, fun h c hc p m hm => h p m ⟨c, hc, hm⟩⟩
  · simp only [block_eq_ok, exists_and_left, exists_eq, and_true]

/-- What is written with a tree is written by itself, and its lines stand in those of the tree. -/
theorem InText.placed (h : InText n p m) (hn : textLines n = .ok lines) :
    block m = .ok (layout m) ∧ Placed p (layout m) lines := by
  have hcounts := exists_textLines_iff.1 ⟨lines, hn⟩
  unfold InText at h hcounts
  unfold textLines at hn
  split at h
  · next hroot =>
    simp only [if_pos hroot] at hn hcounts
    obtain ⟨c, hc, hm⟩ := h
    refine ⟨block_of_written (fun q k hk => hcounts q k ⟨c, hc, hk⟩) hm, ?_⟩
    rw [eq_layouts_of_blocks hn]
    simpa using hm.placed.trans (placed_layouts hc)
  · next hroot =>
    simp only [if_neg hroot] at hn hcounts
    rw [eq_layout_of_block hn]
    exact ⟨block_of_written hcounts h, h.placed⟩

/-- A tree is written if and only if the numbers of each ordered list that is written with it are words, and otherwise
the sum of first number and index overflows. Then the lines of each such list stand together in the text, and the
numbers of its items are those that follow the first; they increase. -/
theorem hasNumbers_written (n : Node) :
    ((∃ s, n.toMarkdown = .ok s) ↔ ∀ p m, InText n p m → CountsUp m) ∧
    (n.toMarkdown = .error .add ↔ ∃ p m, InText n p m ∧ ¬ CountsUp m) ∧
    ∀ s, n.toMarkdown = .ok s → ∃ lines, textLines n = .ok lines ∧ s = joinLines lines ∧
      ∀ p m, InText n p m → m.kind = .list → m.data.bool? "ordered" = some true →
        ∃ ls, block m = .ok ls ∧ Placed p ls lines ∧
          ∀ ks, HasNumbers ks ls ↔ ks = List.range' (firstNumber m) m.childList.length ∧ ks.Pairwise (· < ·) := by
  have hwritten : (∃ s, n.toMarkdown = .ok s) ↔ ∀ p m, InText n p m → CountsUp m := by
    rw [← exists_textLines_iff, toMarkdown_eq]
    cases textLines n <;> simp [Except.map]
  refine ⟨hwritten, ?_, fun s hs => ?_⟩
  · have hnot : (∃ p m, InText n p m ∧ ¬ CountsUp m) ↔ ¬ ∃ s, n.toMarkdown = .ok s := by
      rw [hwritten]
      simp
    rw [hnot]
    cases n.toMarkdown with
    | error e =>
      cases e
      simp
    | ok s => simp
  · rw [toMarkdown_eq] at hs
    obtain ⟨lines, hlines, rfl⟩ := map_eq_ok.1 hs
    refine ⟨lines, hlines, rfl, fun p m hm hk hord => ?_⟩
    obtain ⟨hblock, hplaced⟩ := hm.placed hlines
    refine ⟨layout m, hblock, hplaced, fun ks => ?_⟩
    rw [hasNumbers_layout_iff hk hord]
    refine ⟨?_, And.left⟩
    rintro rfl
    exact ⟨rfl, List.pairwise_lt_range'⟩

theorem hasNumbers_plan : ∃ lines ls, textLines plan = .ok lines ∧ plan.toMarkdown = .ok (joinLines lines) ∧
    InText plan "> " steps ∧ block steps = .ok ls ∧ Placed "> " ls lines ∧ HasNumbers [9, 10] ls := by
  have hsteps : InText plan "> " steps := by
    refine ⟨_, List.mem_singleton_self _, ?_⟩
    exact .inside (.quoted rfl (by simp [Node.childList, Node.parent])) (.self steps)
  obtain ⟨s, hs⟩ : ∃ s, plan.toMarkdown = .ok s := ⟨_, rfl⟩
  obtain ⟨-, -, htext⟩ := hasNumbers_written plan
  obtain ⟨lines, hlines, rfl, hlists⟩ := htext s hs
  obtain ⟨ls, hls, hplaced, hnumbers⟩ := hlists _ _ hsteps rfl (by decide +kernel)
  exact ⟨lines, ls, hlines, hs, hsteps, hls, hplaced, (hnumbers _).2 (by decide +kernel)⟩

/-- Two items, the first numbered by the largest word. -/
def lastWord : Node :=
  let entry (s : String) : Node := .parent .listItem [.parent .paragraph [.literal .text s]]
  ((Node.parent .list [entry "a", entry "b"]).withData "ordered" true).withData "start" (18446744073709551615 : Nat)

/-- After the largest word there is no number for an item, and nothing is written. -/
theorem not_forall_hasNumbers :
    (¬ ∀ n : Node, ∃ lines, textLines n = .ok lines ∧ n.toMarkdown = .ok (joinLines lines) ∧
      ∀ p m, InText n p m → m.kind = .list → m.data.bool? "ordered" = some true →
        ∃ ls, block m = .ok ls ∧ Placed p ls lines ∧
          HasNumbers (List.range' (firstNumber m) m.childList.length) ls) ∧
    (Node.parent .root [lastWord]).toMarkdown = .error .add := by
  have hfails : (Node.parent .root [lastWord]).toMarkdown = .error .add := by decide +kernel
  refine ⟨fun h => ?_, hfails⟩
  obtain ⟨lines, -, hwritten, -⟩ := h (.parent .root [lastWord])
  rw [hfails] at hwritten
  cases hwritten

end RichDoc.Writer
