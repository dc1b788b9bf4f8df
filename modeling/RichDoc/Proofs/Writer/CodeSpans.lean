import RichDoc.Proofs.Text.Lines
import RichDoc.Writer.Inline

/-!
# Reading code spans

`readCodeSpan` reads code between two runs of ticks of one length: the code ends at the next run that is just as long,
line endings in it are blanks, and one blank goes at each end if there is one at both and some other character in the
code. What `codeSpan` writes is read to its end, and gives the code, or the code less a blank at each end if these
conditions hold of the code itself (`readCodeSpan_codeSpan`).
-/

namespace RichDoc.Writer
open Text

/-- The text before the next run of `k` ticks, and the text after it; `run` ticks have just been read. -/
def closeSpan (k run : Nat) : List Char → Option (List Char × List Char)
  | [] => if run = k then some ([], []) else none
  | c :: r =>
    if c = tick then closeSpan k (run + 1) r
    else if run = k then some ([], c :: r)
    else (closeSpan k 0 r).map fun (code, rest) => (List.replicate run tick ++ c :: code, rest)

def blankLineEndings : List Char → List Char
  | [] => []
  | '\r' :: '\n' :: r => ' ' :: blankLineEndings r
  | c :: r => (if c = '\n' ∨ c = '\r' then ' ' else c) :: blankLineEndings r

/-- Code with a blank at each end, and some other character. -/
def Padded (code : List Char) : Prop :=
  code.head? = some ' ' ∧ code.getLast? = some ' ' ∧ ∃ c ∈ code, c ≠ ' '

-- stated over the list: an instance found by search may go through all characters there are
instance : DecidablePred Padded := fun code =>
  decidable_of_iff (code.head? = some ' ' ∧ code.getLast? = some ' ' ∧ code.any (· ≠ ' ')) (by simp [Padded])

/-- Code less the blanks that part it from the marks. -/
def unpad (code : List Char) : List Char := if Padded code then code.tail.dropLast else code

/-- The code of the span at the start of a text, and the text after the span. -/
def readCodeSpan (s : String) : Option (String × String) :=
  let k := (s.toList.takeWhile (· = tick)).length
  if k = 0 then none
  else (closeSpan k 0 (s.toList.dropWhile (· = tick))).map fun (code, rest) =>
    (String.ofList (unpad (blankLineEndings code)), String.ofList rest)

variable {k n run best : Nat} {cs rest : List Char} {v : String}

theorem closeSpan_replicate (h : run + n = k) (hrest : rest.head? ≠ some tick) :
    closeSpan k run (List.replicate n tick ++ rest) = some ([], rest) := by
  induction n generalizing run with
  | zero =>
    cases rest with
    | nil => simp_all [closeSpan]
    | cons c r => simp_all [closeSpan]
  | succ n ih => rw [List.replicate_succ, List.cons_append, closeSpan, if_pos rfl, ih (by omega)]

/-- Code whose runs are all shorter goes on to the run of `k` ticks. -/
theorem closeSpan_append (hrun : run ≤ best) (hk : longestRunFrom tick run best cs < k)
    (hlast : (List.replicate run tick ++ cs).getLast? ≠ some tick) (hrest : rest.head? ≠ some tick) :
    closeSpan k run (cs ++ (List.replicate k tick ++ rest)) = some (List.replicate run tick ++ cs, rest) := by
  fun_induction longestRunFrom tick run best cs with
  | case1 run best =>
    have hzero : run = 0 := by
      cases run with
      | zero => rfl
      | succ n => simp [List.replicate_succ'] at hlast
    subst hzero
    exact closeSpan_replicate (Nat.zero_add k) hrest
  | case2 run best r ih =>
    have hmore : List.replicate (run + 1) tick ++ r = List.replicate run tick ++ tick :: r := by
      rw [List.replicate_succ', List.append_assoc, List.singleton_append]
    rw [List.cons_append, closeSpan, if_pos rfl, ih (Nat.le_max_right ..) hk (by rwa [hmore]), hmore]
  | case3 run best c r hc ih =>
    have hle : best ≤ longestRunFrom tick 0 best r := le_longestRunFrom
    have hr : (List.replicate 0 tick ++ r).getLast? ≠ some tick := by
      cases r with
      | nil => simp
      | cons d r => simpa using hlast
    rw [List.cons_append, closeSpan, if_neg hc, if_neg (by omega), ih (Nat.zero_le _) hk hr]
    rfl

/-- Between marks that are longer than any run in it, code that no mark touches is read to its end. -/
theorem readCodeSpan_marks (hk : longestRunFrom tick 0 0 cs < k) (hne : cs ≠ []) (hfirst : cs.head? ≠ some tick)
    (hlast : cs.getLast? ≠ some tick) (hrest : rest.head? ≠ some tick) :
    readCodeSpan (String.ofList (List.replicate k tick ++ (cs ++ (List.replicate k tick ++ rest)))) =
      some (String.ofList (unpad (blankLineEndings cs)), String.ofList rest) := by
  have hstop : (cs ++ (List.replicate k tick ++ rest)).head? ≠ some tick := by
    obtain ⟨c, r, rfl⟩ := List.exists_cons_of_ne_nil hne
    exact hfirst
  obtain ⟨hmarks, hcode⟩ := run_at_start tick k hstop
  have hclose := closeSpan_append (Nat.le_refl 0) hk (by simpa using hlast) hrest
  rw [readCodeSpan, String.toList_ofList, hmarks, hcode, List.length_replicate, if_neg (by omega), hclose]
  rfl

theorem longestRunFrom_concat {c d : Char} (hd : d ≠ c) :
    longestRunFrom c run best (cs ++ [d]) = longestRunFrom c run best cs := by
  fun_induction longestRunFrom c run best cs with
  | case1 => simp [longestRunFrom, hd]
  | case2 run best r ih => simpa [longestRunFrom] using ih
  | case3 run best e r he ih => simpa [longestRunFrom, he] using ih

/-- What stands between the marks: a tick at either end of the code is parted from them. -/
def betweenMarks (code : List Char) : List Char :=
  if code.head? = some tick ∨ code.getLast? = some tick then ' ' :: (code ++ [' ']) else code

theorem codeSpan_eq (v : String) :
    codeSpan v = String.ofList (List.replicate (longestRun tick v + 1) tick ++
      (betweenMarks v.toList ++ (List.replicate (longestRun tick v + 1) tick ++ []))) := by
  apply String.toList_injective
  by_cases h : v.toList.head? = some tick ∨ v.toList.getLast? = some tick
  · simp [codeSpan, betweenMarks, replicate, h]
  · simp [codeSpan, betweenMarks, replicate, h]

theorem blankLineEndings_eq_self (h : ∀ c ∈ cs, c ≠ '\n' ∧ c ≠ '\r') : blankLineEndings cs = cs := by
  fun_induction blankLineEndings cs with
  | case1 => rfl
  | case2 r ih => simp at h
  | case3 c r hr ih =>
    rw [List.forall_mem_cons] at h
    rw [if_neg (by simpa using h.1), ih h.2]

theorem longestRunFrom_betweenMarks : longestRunFrom tick 0 0 (betweenMarks cs) = longestRunFrom tick 0 0 cs := by
  unfold betweenMarks
  split
  · rw [longestRunFrom, if_neg (by decide), longestRunFrom_concat (by decide)]
  · rfl

theorem betweenMarks_ends (hne : cs ≠ []) : betweenMarks cs ≠ [] ∧ (betweenMarks cs).head? ≠ some tick ∧
    (betweenMarks cs).getLast? ≠ some tick := by
  unfold betweenMarks
  split
  · rw [← List.cons_append, List.getLast?_concat]
    simp [tick]
  · simp_all

theorem padded_blanks (h : ∃ c ∈ cs, c ≠ ' ') : Padded (' ' :: (cs ++ [' '])) := by
  obtain ⟨c, hc, hne⟩ := h
  refine ⟨rfl, ?_, c, by simp [hc], hne⟩
  rw [← List.cons_append, List.getLast?_concat]

theorem unpad_blanks (h : ∃ c ∈ cs, c ≠ ' ') : unpad (' ' :: (cs ++ [' '])) = cs := by
  rw [unpad, if_pos (padded_blanks h), List.tail_cons, List.dropLast_concat]

theorem blanks_unpad (h : Padded cs) : ' ' :: (unpad cs ++ [' ']) = cs := by
  obtain ⟨r, rfl⟩ : ∃ r, cs = ' ' :: r := List.head?_eq_some_iff.1 h.1
  have hne : r ≠ [] := by
    rintro rfl
    simpa using h.2.2
  have hlast : r.getLast? = some ' ' := by rw [← h.2.1, List.getLast?_cons_of_ne_nil hne]
  obtain ⟨t, rfl⟩ := List.getLast?_eq_some_iff.1 hlast
  rw [unpad, if_pos h, List.tail_cons, List.dropLast_concat]

theorem unpad_betweenMarks : unpad (betweenMarks cs) = unpad cs := by
  unfold betweenMarks
  split
  · next h =>
    -- a tick at one end: the code is not all blanks, and has no blank at that end
    have hmem : tick ∈ cs := h.elim List.mem_of_head? List.mem_of_getLast?
    have hpadded : ¬ Padded cs := by
      rintro ⟨hfirst, hlast, -⟩
      rw [hfirst, hlast] at h
      simp [tick] at h
    rw [unpad_blanks ⟨tick, hmem, by decide⟩, unpad, if_neg hpadded]
  · rfl

/-- What `codeSpan` writes is read to its end. It gives the code, unless the code has blanks of its own at both ends
and is not all blanks: then it gives the code less one blank at each end. -/
theorem readCodeSpan_codeSpan (hv : v ≠ "") (hline : ∀ c ∈ v.toList, c ≠ '\n' ∧ c ≠ '\r') :
    ∃ w, readCodeSpan (codeSpan v) = some (w, "") ∧ (w = v ↔ ¬ Padded v.toList) ∧
      (Padded v.toList → " " ++ w ++ " " = v) := by
  have hne : v.toList ≠ [] := by simpa using hv
  obtain ⟨hcode, hfirst, hlast⟩ := betweenMarks_ends hne
  have hlines : blankLineEndings (betweenMarks v.toList) = betweenMarks v.toList := by
    refine blankLineEndings_eq_self fun c hc => ?_
    unfold betweenMarks at hc
    split at hc
    · simp only [List.mem_cons, List.mem_append, List.not_mem_nil, or_false] at hc
      rcases hc with rfl | hc | rfl
      · decide
      · exact hline c hc
      · decide
    · exact hline c hc
  have hruns : longestRunFrom tick 0 0 (betweenMarks v.toList) < longestRun tick v + 1 := by
    rw [longestRunFrom_betweenMarks]
    exact Nat.lt_succ_self _
  have hrest : ([] : List Char).head? ≠ some tick := by simp
  have hread := readCodeSpan_marks hruns hcode hfirst hlast hrest
  rw [← codeSpan_eq, hlines, unpad_betweenMarks] at hread
  have hblanks (h : Padded v.toList) : " " ++ String.ofList (unpad v.toList) ++ " " = v := by
    apply String.toList_injective
    simpa using blanks_unpad h
  refine ⟨_, hread, ⟨fun h hpadded => ?_, fun h => ?_⟩, hblanks⟩
  · have hlength := congrArg String.length (hblanks hpadded)
    rw [h] at hlength
    have hblank : " ".length = 1 := rfl
    rw [String.length_append, String.length_append] at hlength
    omega
  · rw [unpad, if_neg h, String.ofList_toList]

theorem readCodeSpan_tickAtEnd :
    readCodeSpan (codeSpan " a``") = some (" a``", "") ∧
      ∃ w, readCodeSpan (codeSpan " a``") = some (w, "") ∧ (w = " a``" ↔ ¬ Padded " a``".toList) ∧
        (Padded " a``".toList → " " ++ w ++ " " = " a``") := by
  obtain ⟨w, hread, hiff, hpadded⟩ := readCodeSpan_codeSpan (v := " a``") (by decide) (by simp)
  obtain rfl := hiff.2 (by decide)
  exact ⟨hread, _, hread, hiff, hpadded⟩

/-- Code with a blank at each end does not come back: the blanks are taken for those that part code from marks. -/
theorem not_forall_readCodeSpan_codeSpan :
    ¬ ∀ v : String, v ≠ "" → (∀ c ∈ v.toList, c ≠ '\n' ∧ c ≠ '\r') → readCodeSpan (codeSpan v) = some (v, "") := by
  intro h
  have hread : readCodeSpan (codeSpan " a ") = some ("a", "") := by decide +kernel
  have hback := h " a " (by decide) (by simp)
  rw [hread] at hback
  exact absurd hback (by decide)

end RichDoc.Writer
