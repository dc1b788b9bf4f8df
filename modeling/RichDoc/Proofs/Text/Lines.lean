import RichDoc.Text.Lines

/-!
# Lines and runs

A text is a line if it has no line feed (`IsLine`). Splitting a text gives lines (`isLine_of_mem_splitLines`); lines put
together with line feeds between them split into themselves again (`splitLines_joinWith`), and the lines of a text put
together are the text (`joinWith_splitLines`). No run of a character is longer than `longestRun` (`le_longestRun`).
-/

namespace RichDoc.Text
variable {c sep : Char} {cs p : List Char} {s t l : String} {ls : List String} {n run best : Nat}

/-! ### Lines -/

/-- A text without a line feed. -/
def IsLine (s : String) : Prop := '\n' ∉ s.toList

instance : DecidablePred IsLine := fun s => inferInstanceAs (Decidable ('\n' ∉ s.toList))

theorem isLine_append : IsLine (s ++ t) ↔ IsLine s ∧ IsLine t := by
  simp [IsLine]

theorem isLine_replicate (hc : c ≠ '\n') : IsLine (replicate n c) := by
  simp only [IsLine, replicate, String.toList_ofList, List.mem_replicate]
  exact fun h => hc h.2.symm

theorem splitOnChar_eq (sep : Char) (cs : List Char) : splitOnChar sep cs = cs.splitOn sep := by
  induction cs with
  | nil => rfl
  | cons c r ih =>
    rw [splitOnChar, ih, List.splitOn_cons_eq_if_modifyHead]
    by_cases h : c = sep
    · simp [h]
    · obtain ⟨p, ps, hr⟩ := List.exists_cons_of_ne_nil (List.splitOn_ne_nil sep r)
      simp [h, hr]

theorem not_mem_of_mem_splitOnChar (hp : p ∈ splitOnChar sep cs) : sep ∉ p := by
  fun_induction splitOnChar sep cs generalizing p with
  | case1 => simp_all
  | case2 r ih =>
    rcases List.mem_cons.1 hp with rfl | hp
    · exact List.not_mem_nil
    · exact ih hp
  | case3 c r hc hr ih => exact absurd hr (splitOnChar_ne_nil sep r)
  | case4 c r hc q qs hr ih =>
    rw [hr] at ih
    rcases List.mem_cons.1 hp with rfl | hp
    · exact List.not_mem_cons_of_ne_of_not_mem (Ne.symm hc) (ih List.mem_cons_self)
    · exact ih (List.mem_cons_of_mem _ hp)

theorem isLine_of_mem_splitLines (hl : l ∈ splitLines s) : IsLine l := by
  obtain ⟨p, hp, rfl⟩ := List.mem_map.1 hl
  simpa [IsLine] using not_mem_of_mem_splitOnChar hp

theorem joinWith_cons (sep s : String) (hne : ls ≠ []) : joinWith sep (s :: ls) = s ++ sep ++ joinWith sep ls := by
  obtain ⟨l, r, rfl⟩ := List.exists_cons_of_ne_nil hne
  rfl

theorem joinWith_concat (sep s : String) (hne : ls ≠ []) : joinWith sep (ls ++ [s]) = joinWith sep ls ++ sep ++ s := by
  induction ls with
  | nil => exact absurd rfl hne
  | cons l r ih =>
    by_cases hr : r = []
    · rw [hr]
      rfl
    · rw [List.cons_append, joinWith_cons sep l (by simp), joinWith_cons sep l hr, ih hr]
      simp only [String.append_assoc]

theorem toList_joinWith (sep : String) (ls : List String) :
    (joinWith sep ls).toList = sep.toList.intercalate (ls.map String.toList) := by
  fun_induction joinWith sep ls with
  | case1 => rfl
  | case2 s => simp
  | case3 s r hr ih => rw [List.map_cons, List.intercalate_cons_of_ne_nil (by simpa using hr)]; simp [ih]

theorem map_toList_splitLines (s : String) : (splitLines s).map String.toList = s.toList.splitOn '\n' := by
  simp [splitLines, splitOnChar_eq, Function.comp_def]

/-- The lines of a text, put together again, are the text. -/
theorem joinWith_splitLines (s : String) : joinWith "\n" (splitLines s) = s := by
  apply String.toList_injective
  rw [toList_joinWith, map_toList_splitLines]
  exact List.intercalate_splitOn '\n'

theorem infix_joinWith (hl : l ∈ ls) (sep : String) : l.toList <:+: (joinWith sep ls).toList := by
  fun_induction joinWith sep ls with
  | case1 => simp at hl
  | case2 s =>
    obtain rfl := List.mem_singleton.1 hl
    exact List.infix_refl _
  | case3 s r hr ih =>
    rw [String.toList_append]
    rcases List.mem_cons.1 hl with rfl | hl
    · rw [String.toList_append, List.append_assoc]
      exact (List.prefix_append _ _).isInfix
    · exact (ih hl).trans (List.suffix_append _ _).isInfix

theorem infix_of_mem_splitLines (hl : l ∈ splitLines s) : l.toList <:+: s.toList := by
  have h := infix_joinWith hl "\n"
  rwa [joinWith_splitLines] at h

/-- Lines that are put together come apart again. -/
theorem splitLines_joinWith (hls : ∀ l ∈ ls, IsLine l) (hne : ls ≠ []) : splitLines (joinWith "\n" ls) = ls := by
  refine (List.map_inj_right fun _ _ h => String.toList_injective h).1 ?_
  rw [map_toList_splitLines, toList_joinWith]
  refine List.splitOn_intercalate '\n' (fun p hp => ?_) (by simpa using hne)
  obtain ⟨l, hl, rfl⟩ := List.mem_map.1 hp
  exact hls l hl

/-! ### Runs -/

theorem run_at_start (c : Char) (n : Nat) (hcs : cs.head? ≠ some c) :
    (List.replicate n c ++ cs).takeWhile (· = c) = List.replicate n c ∧
      (List.replicate n c ++ cs).dropWhile (· = c) = cs := by
  have hrun : ∀ x ∈ List.replicate n c, decide (x = c) = true := by simp
  rw [List.takeWhile_append_of_pos hrun, List.dropWhile_append_of_pos hrun]
  cases cs with
  | nil => simp
  | cons x r =>
    have hx : x ≠ c := by simpa using hcs
    simp [hx]

theorem le_longestRunFrom : best ≤ longestRunFrom c run best cs := by
  fun_induction longestRunFrom c run best cs with
  | case1 => exact Nat.le_refl _
  | case2 run best r ih => exact Nat.le_trans (Nat.le_max_left ..) ih
  | case3 run best d r hd ih => exact ih

theorem add_le_longestRunFrom (hrun : run ≤ best) (h : List.replicate n c <+: cs) :
    run + n ≤ longestRunFrom c run best cs := by
  fun_induction longestRunFrom c run best cs generalizing n with
  | case1 run best =>
    have hn : n = 0 := by simpa using h
    omega
  | case2 run best r ih =>
    cases n with
    | zero => exact Nat.le_trans (by omega) le_longestRunFrom
    | succ n =>
      have hle := ih (Nat.le_max_right ..) (List.prefix_cons_inj c |>.1 h)
      omega
  | case3 run best d r hd ih =>
    cases n with
    | zero => exact Nat.le_trans hrun le_longestRunFrom
    | succ n => exact absurd (List.cons_prefix_cons.1 h).1.symm hd

theorem le_longestRunFrom_of_infix (hrun : run ≤ best) (h : List.replicate n c <:+: cs) :
    n ≤ longestRunFrom c run best cs := by
  fun_induction longestRunFrom c run best cs with
  | case1 run best =>
    have hn : n = 0 := by simpa using h
    omega
  | case2 run best r ih =>
    rcases List.infix_cons_iff.1 h with h | h
    · have hle := add_le_longestRunFrom hrun h
      rw [longestRunFrom, if_pos rfl] at hle
      omega
    · exact ih (Nat.le_max_right ..) h
  | case3 run best d r hd ih =>
    rcases List.infix_cons_iff.1 h with h | h
    · have hle := add_le_longestRunFrom hrun h
      rw [longestRunFrom, if_neg hd] at hle
      omega
    · exact ih (Nat.zero_le _) h

/-- No run of a character is longer than the longest. -/
theorem le_longestRun (h : List.replicate n c <:+: s.toList) : n ≤ longestRun c s :=
  le_longestRunFrom_of_infix (Nat.zero_le _) h

end RichDoc.Text
