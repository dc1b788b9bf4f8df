import RichDoc.Content.Match
import RichDoc.Proofs.Content.Language
import RichDoc.Proofs.Results

/-!
# Rounds

A repetition is followed round by round (`rounds`), with the places that the last round leads to and those that an
allowed number of rounds does (`Standing`). It is gone on from a round as long as there is a place to go on from, the
bound is ahead, and every round since the least brought a new place (`GoesOn`). What is found then is all that any
allowed number of rounds leads to (`mem_rounds`): a round that brings nothing new leaves the places that are reached
closed under going on. The rounds are counted in a word, so a repetition may outrun it (`rounds_eq_error_iff`).
-/

namespace RichDoc.Content

variable {types : List String} {l : Language String} {step : Step} {least count : UInt64} {most : Option UInt64}
  {p q k : Nat} {ps qs front reached : List Nat}

/-! ### One round -/

theorem mem_of_mapM {rows : List (List Nat)} (h : ps.mapM step = .ok rows) :
    q ∈ rows.flatten ↔ ∃ p ∈ ps, ∃ row, step p = .ok row ∧ q ∈ row := by
  induction ps generalizing rows with
  | nil =>
    cases h
    simp
  | cons p r ih =>
    rw [List.mapM_cons, bind_eq_ok] at h
    obtain ⟨row, hp, h⟩ := h
    obtain ⟨rest, hr, h⟩ := bind_eq_ok.1 h
    cases h
    rw [List.flatten_cons, List.mem_append, ih hr]
    simp [hp]

theorem mapM_eq_error : ps.mapM step = .error .add ↔ ∃ p ∈ ps, step p = .error .add := by
  induction ps with
  | nil => simp [pure, Except.pure]
  | cons p r ih =>
    rw [List.mapM_cons, bind_eq_error]
    cases hp : step p with
    | error e =>
      cases e
      simp [hp]
    | ok row => simp [bind_eq_error, ih, hp, pure, Except.pure]

theorem image_eq_error : image step ps = .error .add ↔ ∃ p ∈ ps, step p = .error .add := by
  simp [image, bind_eq_error, mapM_eq_error, pure, Except.pure]

/-- Where the step answers, it leads as far as one word. -/
def Follows (step : Step) (types : List String) (l : Language String) : Prop :=
  ∀ p qs, step p = .ok qs → ∀ q, q ∈ qs ↔ Spells types l p q

theorem Follows.mem_image (hstep : Follows step types l) (h : image step ps = .ok qs) :
    q ∈ qs ↔ ∃ p ∈ ps, Spells types l p q := by
  obtain ⟨rows, hrows, h⟩ := bind_eq_ok.1 h
  cases h
  rw [List.mem_eraseDups, mem_of_mapM hrows]
  refine exists_congr fun p => and_congr_right fun hp => ?_
  obtain ⟨row, hrow⟩ : ∃ row, step p = .ok row := by
    cases hp' : step p with
    | ok row => exact ⟨row, rfl⟩
    | error e =>
      cases e
      have := mapM_eq_error.2 ⟨p, hp, hp'⟩
      simp [hrows] at this
  simp [hrow, hstep p row hrow q]

/-! ### Where the rounds stand -/

/-- Round `k` leads to a place that no allowed round before it does. -/
def BringsNew (types : List String) (l : Language String) (least : UInt64) (p k : Nat) : Prop :=
  ∃ q, Spells types (l ^ k) p q ∧ ∀ j, least.toNat ≤ j → j < k → ¬ Spells types (l ^ j) p q

/-- It is gone on from round `k`. -/
structure GoesOn (types : List String) (l : Language String) (least : UInt64) (most : Option UInt64) (p k : Nat) :
    Prop where
  bound : ∀ m ∈ most, k < m.toNat
  leads : ∃ q, Spells types (l ^ k) p q
  new : ∀ j, least.toNat < j → j ≤ k → BringsNew types l least p j

/-- What is known when `k` rounds have been gone. -/
structure Standing (types : List String) (l : Language String) (least : UInt64) (most : Option UInt64) (p : Nat)
    (reached front : List Nat) (k : Nat) : Prop where
  front : ∀ q, q ∈ front ↔ Spells types (l ^ k) p q
  reached : ∀ q, q ∈ reached ↔ ∃ j, least.toNat ≤ j ∧ j < k ∧ Spells types (l ^ j) p q
  bound : ∀ m ∈ most, k ≤ m.toNat
  new : ∀ j, least.toNat < j → j ≤ k → BringsNew types l least p j

/-- The places of the last round are added if it is an allowed one. -/
def extend (least count : UInt64) (reached front : List Nat) : List Nat :=
  if least ≤ count then (reached ++ front).eraseDups else reached

/-- There is no going on from the last round. -/
def stops (most : Option UInt64) (front : List Nat) (count : UInt64) : Bool :=
  most.any (· ≤ count) || front.isEmpty

theorem rounds_of_stops (h : stops most front count = true) :
    rounds step least most reached front count = .ok (extend least count reached front) := by
  rw [rounds]
  exact if_pos h

theorem rounds_of_not_stops (h : stops most front count = false) :
    rounds step least most reached front count = (image step front >>= fun next =>
      wordSum count.toNat 1 >>= fun n =>
        if least < n && next.all ((extend least count reached front).contains ·) then
          .ok (extend least count reached front)
        else rounds step least most (extend least count reached front) next n) := by
  rw [rounds]
  refine (if_neg (ne_true_of_eq_false h)).trans (bind_congr fun next => ?_)
  cases wordSum count.toNat 1 <;> rfl

namespace Standing

theorem start (types : List String) (l : Language String) (least : UInt64) (most : Option UInt64) (p : Nat) :
    Standing types l least most p [] [p] 0 where
  front q := by simp [Spells.one]
  reached q := by simp
  bound m _ := Nat.zero_le _
  new j hj hj' := by omega

variable (h : Standing types l least most p reached front count.toNat)
include h

theorem mem_extend : q ∈ extend least count reached front ↔
    ∃ j, least.toNat ≤ j ∧ j ≤ count.toNat ∧ Spells types (l ^ j) p q := by
  unfold extend
  split
  · next hle =>
    rw [List.mem_eraseDups, List.mem_append, h.reached, h.front]
    constructor
    · rintro (⟨j, hj, hlt, hq⟩ | hq)
      · exact ⟨j, hj, hlt.le, hq⟩
      · exact ⟨_, UInt64.le_iff_toNat_le.1 hle, Nat.le_refl _, hq⟩
    · rintro ⟨j, hj, hle, hq⟩
      rcases Nat.lt_or_eq_of_le hle with hlt | rfl
      · exact .inl ⟨j, hj, hlt, hq⟩
      · exact .inr hq
  · next hle =>
    rw [h.reached]
    rw [UInt64.le_iff_toNat_le] at hle
    exact exists_congr fun j => and_congr_right fun hj => and_congr_left' (by omega)

theorem goesOn (hstops : stops most front count = false) : GoesOn types l least most p count.toNat := by
  obtain ⟨hbound, hfront⟩ := Bool.or_eq_false_iff.1 hstops
  obtain ⟨q, hq⟩ := List.exists_mem_of_ne_nil front (by simpa using hfront)
  refine ⟨fun m hm => ?_, ⟨q, (h.front q).1 hq⟩, h.new⟩
  simpa [UInt64.lt_iff_toNat_lt] using (Option.any_eq_false _ _).1 hbound m hm

/-- Where the rounds stop it is gone on from none that is left. -/
theorem not_goesOn (hstops : stops most front count = true) (hk : count.toNat ≤ k) : ¬ GoesOn types l least most p k := by
  intro hgo
  simp only [stops, Bool.or_eq_true, Option.any_eq_true, decide_eq_true_eq, UInt64.le_iff_toNat_le,
    List.isEmpty_iff] at hstops
  rcases hstops with ⟨m, hm, hle⟩ | rfl
  · have := hgo.bound m hm
    omega
  · obtain ⟨q, hq⟩ := hgo.leads
    obtain ⟨r, hr⟩ := hq.of_le hk
    simpa using (h.front r).2 hr

theorem not_bringsNew {next : List Nat} (hstep : Follows step types l) (hnext : image step front = .ok next)
    (hall : next.all ((extend least count reached front).contains ·) = true) :
    ¬ BringsNew types l least p (count.toNat + 1) := by
  rintro ⟨q, hq, hnew⟩
  obtain ⟨r, hr, hq⟩ := Spells.pow_last.1 hq
  have hmem : q ∈ next := (hstep.mem_image hnext).2 ⟨r, (h.front r).2 hr, hq⟩
  obtain ⟨j, hj, hle, hjq⟩ := h.mem_extend.1 (by simpa using List.all_eq_true.1 hall q hmem)
  exact hnew j hj (Nat.lt_succ_of_le hle) hjq

theorem next {next : List Nat} {n : UInt64} (hstep : Follows step types l) (hstops : stops most front count = false)
    (hnext : image step front = .ok next) (hn : n.toNat = count.toNat + 1)
    (hcut : (least < n && next.all ((extend least count reached front).contains ·)) = false) :
    Standing types l least most p (extend least count reached front) next n.toNat where
  front q := by
    rw [hn, Spells.pow_last, hstep.mem_image hnext]
    simp only [h.front]
  reached q := by
    rw [h.mem_extend, hn]
    simp only [Nat.lt_succ_iff]
  bound m hm := hn ▸ (h.goesOn hstops).bound m hm
  new j hj hle := by
    rw [hn] at hle
    rcases Nat.lt_or_eq_of_le hle with hlt | rfl
    · exact h.new j hj (Nat.le_of_lt_succ hlt)
    -- the round just gone was not cut off, so a place of it is new
    rw [Bool.and_eq_false_iff, decide_eq_false_iff_not, UInt64.lt_iff_toNat_lt, hn] at hcut
    obtain ⟨q, hq, hnew⟩ := List.all_eq_false.1 (hcut.resolve_left fun h => h hj)
    obtain ⟨r, hr, hrq⟩ := (hstep.mem_image hnext).1 hq
    refine ⟨q, Spells.pow_last.2 ⟨r, (h.front r).1 hr, hrq⟩, fun i hi hlt hiq => hnew ?_⟩
    simpa using h.mem_extend.2 ⟨i, hi, Nat.le_of_lt_succ hlt, hiq⟩

/-- What a round without a new place leaves is closed under going on. -/
theorem closed {next : List Nat} (hstep : Follows step types l) (hnext : image step front = .ok next)
    (hall : next.all ((extend least count reached front).contains ·) = true) {j : Nat} (hj : least.toNat ≤ j)
    (hq : Spells types (l ^ j) p q) (hle : least.toNat ≤ count.toNat) : q ∈ extend least count reached front := by
  induction j, hj using Nat.le_induction generalizing q with
  | base => exact h.mem_extend.2 ⟨_, Nat.le_refl _, hle, hq⟩
  | succ j hj ih =>
    obtain ⟨r, hr, hrq⟩ := Spells.pow_last.1 hq
    obtain ⟨i, hi, hik, hir⟩ := h.mem_extend.1 (ih hr)
    rcases Nat.lt_or_eq_of_le hik with hlt | rfl
    · exact h.mem_extend.2 ⟨i + 1, Nat.le_succ_of_le hi, hlt, Spells.pow_last.2 ⟨r, hir, hrq⟩⟩
    · have hmem : q ∈ next := (hstep.mem_image hnext).2 ⟨r, (h.front r).2 hir, hrq⟩
      simpa using List.all_eq_true.1 hall q hmem

/-! What is reached at the end is what any allowed number of words leads to. -/

theorem allowed (hq : q ∈ extend least count reached front) :
    ∃ k, least.toNat ≤ k ∧ (∀ m ∈ most, k ≤ m.toNat) ∧ Spells types (l ^ k) p q := by
  obtain ⟨j, hj, hle, hjq⟩ := h.mem_extend.1 hq
  exact ⟨j, hj, fun m hm => hle.trans (h.bound m hm), hjq⟩

theorem mem_of_stops (hstops : stops most front count = true) : q ∈ extend least count reached front ↔
    ∃ k, least.toNat ≤ k ∧ (∀ m ∈ most, k ≤ m.toNat) ∧ Spells types (l ^ k) p q := by
  refine ⟨h.allowed, ?_⟩
  rintro ⟨k, hk, hbound, hq⟩
  refine h.mem_extend.2 ⟨k, hk, ?_, hq⟩
  by_contra hlt
  simp only [stops, Bool.or_eq_true, Option.any_eq_true, decide_eq_true_eq, UInt64.le_iff_toNat_le,
    List.isEmpty_iff] at hstops
  rcases hstops with ⟨m, hm, hle⟩ | rfl
  · have := hbound m hm
    omega
  · obtain ⟨r, hr⟩ := hq.of_le (j := count.toNat) (by omega)
    simpa using (h.front r).2 hr

theorem mem_of_cut {next : List Nat} (hstep : Follows step types l) (hnext : image step front = .ok next)
    (hall : next.all ((extend least count reached front).contains ·) = true) (hle : least.toNat ≤ count.toNat) :
    q ∈ extend least count reached front ↔
      ∃ k, least.toNat ≤ k ∧ (∀ m ∈ most, k ≤ m.toNat) ∧ Spells types (l ^ k) p q := by
  refine ⟨h.allowed, ?_⟩
  rintro ⟨k, hk, -, hq⟩
  exact h.closed hstep hnext hall hk hq hle

end Standing

/-! ### All rounds -/

/-- What the rounds reach is what any allowed number of words leads to. -/
theorem mem_rounds (hstep : Follows step types l)
    (hs : Standing types l least most p reached front count.toNat)
    (h : rounds step least most reached front count = .ok qs) :
    q ∈ qs ↔ ∃ k, least.toNat ≤ k ∧ (∀ m ∈ most, k ≤ m.toNat) ∧ Spells types (l ^ k) p q := by
  induction reached, front, count using rounds.induct least most with
  | case1 reached front count hstops =>
    rw [rounds_of_stops hstops, Except.ok.injEq] at h
    subst h
    exact hs.mem_of_stops hstops
  | case2 reached front count _ hstops ih =>
    replace hstops : stops most front count = false := by simpa [stops] using hstops
    rw [rounds_of_not_stops hstops] at h
    obtain ⟨next, hnext, h⟩ := bind_eq_ok.1 h
    obtain ⟨n, hn, h⟩ := bind_eq_ok.1 h
    split at h
    · next hcut =>
      rw [Except.ok.injEq] at h
      subst h
      rw [Bool.and_eq_true, decide_eq_true_eq, UInt64.lt_iff_toNat_lt, wordSum_eq_ok.1 hn] at hcut
      exact hs.mem_of_cut hstep hnext hcut.2 (Nat.le_of_lt_succ hcut.1)
    · next hcut => exact ih next n hn (hs.next hstep hstops hnext (wordSum_eq_ok.1 hn) (by simpa using hcut)) h

/-- The rounds overflow where the step does, at a place that is gone on from, or where the largest word of them is gone
on from. -/
theorem rounds_eq_error_iff (hstep : Follows step types l)
    (hs : Standing types l least most p reached front count.toNat) :
    rounds step least most reached front count = .error .add ↔
      (∃ k q, count.toNat ≤ k ∧ GoesOn types l least most p k ∧ Spells types (l ^ k) p q ∧ step q = .error .add) ∨
        GoesOn types l least most p (UInt64.size - 1) := by
  have hlast (count : UInt64) : count.toNat ≤ UInt64.size - 1 := Nat.le_sub_one_of_lt count.toNat_lt_size
  induction reached, front, count using rounds.induct least most with
  | case1 reached front count hstops =>
    rw [rounds_of_stops hstops]
    refine iff_of_false (by simp) ?_
    rintro (⟨k, q, hk, hgo, -⟩ | hgo)
    · exact hs.not_goesOn hstops hk hgo
    · exact hs.not_goesOn hstops (hlast count) hgo
  | case2 reached front count _ hstops ih =>
    replace hstops : stops most front count = false := by simpa [stops] using hstops
    rw [rounds_of_not_stops hstops]
    cases hnext : image step front with
    | error e =>
      cases e
      obtain ⟨q, hq, hfail⟩ := image_eq_error.1 hnext
      exact iff_of_true rfl (.inl ⟨_, q, Nat.le_refl _, hs.goesOn hstops, (hs.front q).1 hq, hfail⟩)
    | ok next =>
      have hfine (q : Nat) (hq : Spells types (l ^ count.toNat) p q) : step q ≠ .error .add := by
        intro hfail
        have := image_eq_error.2 ⟨q, (hs.front q).2 hq, hfail⟩
        simp [hnext] at this
      cases hn : wordSum count.toNat 1 with
      | error e =>
        cases e
        have hcount := wordSum_eq_error.1 hn
        refine iff_of_true rfl (.inr ?_)
        rw [show UInt64.size - 1 = count.toNat from Nat.le_antisymm (by omega) (hlast count)]
        exact hs.goesOn hstops
      | ok n =>
        have hcount := wordSum_eq_ok.1 hn
        show (if _ then _ else _) = _ ↔ _
        split
        · next hcut =>
          rw [Bool.and_eq_true, decide_eq_true_eq, UInt64.lt_iff_toNat_lt, hcount] at hcut
          have hnone : ∀ k, count.toNat < k → ¬ GoesOn types l least most p k := fun k hk hgo =>
            hs.not_bringsNew hstep hnext hcut.2 (hgo.new _ hcut.1 hk)
          refine iff_of_false (by simp) ?_
          rintro (⟨k, q, hk, hgo, hq, hfail⟩ | hgo)
          · rcases Nat.lt_or_eq_of_le hk with hlt | rfl
            · exact hnone k hlt hgo
            · exact hfine q hq hfail
          · exact hnone _ (by have := hlast n; omega) hgo
        · next hcut =>
          refine (ih next n hn (hs.next hstep hstops hnext hcount (by simpa using hcut))).trans (or_congr_left ⟨?_, ?_⟩)
          · rintro ⟨k, q, hk, h⟩
            exact ⟨k, q, by omega, h⟩
          · rintro ⟨k, q, hk, hgo, hq, hfail⟩
            refine ⟨k, q, ?_, hgo, hq, hfail⟩
            rcases Nat.lt_or_eq_of_le hk with hlt | rfl
            · omega
            · exact absurd hfail (hfine q hq)

end RichDoc.Content
