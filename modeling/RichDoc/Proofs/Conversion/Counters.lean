import Mathlib.Data.List.Range
import RichDoc.Conversion.Context
import RichDoc.Proofs.Results

/-!
# Counters

Converters put values of any kind into a context, look at them, take them out and count under them, in any order
(`Call`). A count is one more than the word under its key, and is held there afterwards; what other keys hold stays. A run
overflows where a count would be no word, and nowhere else (`run_eq_error_iff`), so the counts under a key that is
neither set nor removed are consecutive numbers, whatever happens to other keys (`counts_run`).
-/

namespace RichDoc.Context
variable {cx cx' : Context} {k l : String} {c : Call} {calls : List Call} {n : UInt64} {ns : List (String × UInt64)}

/-- What is done with a context. -/
inductive Call where
  | set (k : String) (v : Json)
  | get (k : String)
  | remove (k : String)
  | next (k : String)
deriving DecidableEq

/-- The count that a call gives, with its key, and the context after it. -/
def call (cx : Context) : Call → Except Overflow (List (String × UInt64) × Context)
  | .set k v => .ok ([], cx.set k v)
  | .get _ => .ok ([], cx)
  | .remove k => .ok ([], cx.remove k)
  | .next k => (cx.next k).map fun (n, cx) => ([(k, n)], cx)

/-- The counts that calls give one after the other, and the context after them. -/
def run (cx : Context) : List Call → Except Overflow (List (String × UInt64) × Context)
  | [] => .ok ([], cx)
  | c :: r => do
    let (ns, cx) ← cx.call c
    let (ms, cx) ← run cx r
    return (ns ++ ms, cx)

/-- The counts under `k`. -/
def counts (k : String) (ns : List (String × UInt64)) : List Nat := (ns.filter (·.1 = k)).map (·.2.toNat)

/-- The value under `k` is put there or taken away. -/
def Call.Writes (k : String) : Call → Prop
  | set l _ | remove l => l = k
  | get _ | next _ => False

theorem count_eq (cx : Context) (k : String) : cx.count k = ((cx.get? k).bind Json.nat?).getD 0 := rfl

/-! ### One call -/

/-- The next count is one more, and is held under its key; what other keys hold stays. -/
theorem next_eq_ok : cx.next k = .ok (n, cx') ↔ n.toNat = cx.count k + 1 ∧ cx' = cx.set k (n.toNat : Json) := by
  rw [next, bind_eq_ok]
  simp only [wordSum_eq_ok]
  constructor
  · rintro ⟨w, hw, h⟩
    cases h
    exact ⟨hw, rfl⟩
  · rintro ⟨hn, rfl⟩
    exact ⟨n, hn, rfl⟩

theorem next_eq_error : cx.next k = .error .add ↔ UInt64.size ≤ cx.count k + 1 := by
  rw [next, bind_eq_error, ← wordSum_eq_error]
  simp [pure, Except.pure]

theorem count_next (h : cx.next k = .ok (n, cx')) : cx'.count k = cx.count k + 1 := by
  obtain ⟨hn, rfl⟩ := next_eq_ok.1 h
  rw [count_eq, get?_set, if_pos rfl, ← hn]
  show (if n.toNat < UInt64.size then some n.toNat else none).getD 0 = n.toNat
  rw [if_pos n.toNat_lt_size]
  rfl

theorem get?_call (hwrites : ¬ c.Writes k) (hnext : c ≠ .next k) (h : cx.call c = .ok (ns, cx')) :
    cx'.get? k = cx.get? k := by
  cases c with
  | set l v =>
    cases h
    rw [get?_set, if_neg (Ne.symm hwrites)]
  | get l =>
    cases h
    rfl
  | remove l =>
    cases h
    rw [get?_remove, if_neg (Ne.symm hwrites)]
  | next l =>
    have hne : k ≠ l := by
      rintro rfl
      exact hnext rfl
    obtain ⟨⟨n, cy⟩, hn, h⟩ := map_eq_ok.1 h
    cases h
    obtain ⟨-, rfl⟩ := next_eq_ok.1 hn
    rw [get?_set, if_neg hne]

theorem counts_call (hnext : c ≠ .next k) (h : cx.call c = .ok (ns, cx')) : counts k ns = [] := by
  cases c with
  | set | get | remove =>
    cases h
    rfl
  | next l =>
    obtain ⟨⟨n, cy⟩, -, h⟩ := map_eq_ok.1 h
    cases h
    have hne : l ≠ k := by
      rintro rfl
      exact hnext rfl
    simp [counts, hne]

theorem call_eq_error_iff : cx.call c = .error .add ↔ ∃ k, c = .next k ∧ UInt64.size ≤ cx.count k + 1 := by
  cases c with
  | set | get | remove => simp [call]
  | next k => simp [call, map_eq_error, next_eq_error]

/-! ### A run of calls -/

theorem run_cons_eq_ok {r : List Call} : cx.run (c :: r) = .ok (ns, cx') ↔
    ∃ ms cy, cx.call c = .ok (ms, cy) ∧ ∃ ls, cy.run r = .ok (ls, cx') ∧ ns = ms ++ ls := by
  rw [run, bind_eq_ok]
  constructor
  · rintro ⟨⟨ms, cy⟩, hc, h⟩
    obtain ⟨⟨ls, cz⟩, hr, h⟩ := bind_eq_ok.1 h
    cases h
    exact ⟨ms, cy, hc, ls, hr, rfl⟩
  · rintro ⟨ms, cy, hc, ls, hr, rfl⟩
    exact ⟨(ms, cy), hc, bind_eq_ok.2 ⟨(ls, cx'), hr, rfl⟩⟩

theorem run_eq_error_iff : cx.run calls = .error .add ↔ ∃ before k after ns cx', calls = before ++ .next k :: after ∧
    cx.run before = .ok (ns, cx') ∧ UInt64.size ≤ cx'.count k + 1 := by
  induction calls generalizing cx with
  | nil => simp [run]
  | cons c r ih =>
    rw [run, bind_eq_error, call_eq_error_iff]
    constructor
    · rintro (⟨k, rfl, hk⟩ | ⟨⟨ms, cy⟩, hc, h⟩)
      · exact ⟨[], k, r, [], cx, rfl, rfl, hk⟩
      · have hr : cy.run r = .error .add := by simpa [bind_eq_error, pure, Except.pure] using h
        obtain ⟨before, k, after, ns, cx', rfl, hbefore, hk⟩ := ih.1 hr
        exact ⟨c :: before, k, after, _, cx', rfl, run_cons_eq_ok.2 ⟨ms, cy, hc, ns, hbefore, rfl⟩, hk⟩
    · rintro ⟨before, k, after, ns, cx', heq, hbefore, hk⟩
      cases before with
      | nil =>
        cases heq
        cases hbefore
        exact .inl ⟨k, rfl, hk⟩
      | cons b before =>
        cases heq
        obtain ⟨ms, cy, hc, ls, hbefore, -⟩ := run_cons_eq_ok.1 hbefore
        exact .inr ⟨(ms, cy), hc, bind_eq_error.2 (.inl (ih.2 ⟨before, k, after, ls, cx', rfl, hbefore, hk⟩))⟩

theorem counts_eq (h : ∀ c ∈ calls, ¬ c.Writes k) (hrun : cx.run calls = .ok (ns, cx')) :
    counts k ns = List.range' (cx.count k + 1) (calls.count (.next k)) ∧
      cx'.count k = cx.count k + calls.count (.next k) := by
  induction calls generalizing cx ns with
  | nil =>
    cases hrun
    exact ⟨rfl, rfl⟩
  | cons c r ih =>
    obtain ⟨hc, hr⟩ := List.forall_mem_cons.1 h
    obtain ⟨ms, cy, hcall, ls, hrest, rfl⟩ := run_cons_eq_ok.1 hrun
    obtain ⟨hcounts, hlast⟩ := ih hr hrest
    have happend : counts k (ms ++ ls) = counts k ms ++ counts k ls := by simp [counts]
    rw [happend, hcounts, hlast]
    by_cases hnext : c = .next k
    · subst hnext
      obtain ⟨⟨n, cz⟩, hn, h⟩ := map_eq_ok.1 hcall
      cases h
      have hfirst : counts k [(k, n)] = [cx.count k + 1] := by simp [counts, (next_eq_ok.1 hn).1]
      rw [hfirst, count_next hn, List.count_cons_self]
      exact ⟨(List.range'_succ ..).symm, by omega⟩
    · have hheld : cy.count k = cx.count k := by rw [count_eq, get?_call hc hnext hcall, count_eq]
      rw [counts_call hnext hcall, hheld, List.count_cons_of_ne hnext]
      exact ⟨rfl, rfl⟩

/-- Whatever a context has come to hold, a count is one more than the word under its key, and takes its place; other
keys keep what they hold. There is such a count unless the word is the largest, and a run of calls gives its counts
unless it asks for one that there is not. As long as nobody else writes to the key its counts are consecutive numbers. -/
theorem counts_run (cx : Context) (k : String) :
    (∀ n cx', cx.next k = .ok (n, cx') →
      n.toNat = cx.count k + 1 ∧ cx'.get? k = some (n.toNat : Json) ∧ ∀ l ≠ k, cx'.get? l = cx.get? l) ∧
    ((∃ n cx', cx.next k = .ok (n, cx')) ↔ cx.count k + 1 < UInt64.size) ∧
    (∀ more, cx.run more = .error .add ↔ ∃ before l after ms cx', more = before ++ .next l :: after ∧
      cx.run before = .ok (ms, cx') ∧ UInt64.size ≤ cx'.count l + 1) ∧
    ∀ more ms cx', (∀ c ∈ more, ¬ c.Writes k) → cx.run more = .ok (ms, cx') →
      counts k ms = List.range' (cx.count k + 1) (more.count (.next k)) ∧ (counts k ms).Pairwise (· < ·) ∧
        cx'.count k = cx.count k + more.count (.next k) := by
  refine ⟨?_, ?_, fun more => run_eq_error_iff, ?_⟩
  · intro n cx' hn
    obtain ⟨hcount, rfl⟩ := next_eq_ok.1 hn
    refine ⟨hcount, by rw [get?_set, if_pos rfl], fun l hl => by rw [get?_set, if_neg hl]⟩
  · rw [← Nat.not_le, ← next_eq_error]
    cases cx.next k with
    | error e => simp [show e = .add from rfl]
    | ok p => exact iff_of_true ⟨p.1, p.2, rfl⟩ (by simp)
  · intro more ms cx' hmore hrun
    obtain ⟨hcounts, hlast⟩ := counts_eq hmore hrun
    exact ⟨hcounts, hcounts ▸ List.pairwise_lt_range', hlast⟩

/-- A footnote counter that held a flag, while another key is set and counted under. -/
theorem counts_run_footnotes : ∃ ns cx, run {} [.next "notes", .set "notes" true, .next "notes"] = .ok (ns, cx) ∧
    cx.count "notes" = 1 ∧ ∃ ms cx',
      cx.run [.next "notes", .set "tables" (7 : Nat), .next "tables", .get "notes", .next "notes"] = .ok (ms, cx') ∧
        counts "notes" ms = [2, 3] ∧ (counts "notes" ms).Pairwise (· < ·) := by
  have hrun : run {} [.next "notes", .set "notes" true, .next "notes"] =
      .ok ([("notes", 1), ("notes", 1)], ⟨.ofList [("notes", (1 : Nat))]⟩) := by rfl
  have hmore : run ⟨.ofList [("notes", (1 : Nat))]⟩
      [.next "notes", .set "tables" (7 : Nat), .next "tables", .get "notes", .next "notes"] =
        .ok ([("notes", 2), ("tables", 8), ("notes", 3)], ⟨.ofList [("notes", (3 : Nat)), ("tables", (8 : Nat))]⟩) := by
    rfl
  obtain ⟨-, -, -, hcounts⟩ := counts_run ⟨.ofList [("notes", (1 : Nat))]⟩ "notes"
  obtain ⟨hexact, hincreasing, -⟩ := hcounts _ _ _ (by simp [Call.Writes]) hmore
  exact ⟨_, _, hrun, by decide +kernel, _, _, hmore, hexact, hincreasing⟩

/-- After the largest word there is no count. -/
theorem not_forall_counts_exact :
    (¬ ∀ (calls : List Call) (ns : List (String × UInt64)) (cx : Context) (k : String), run {} calls = .ok (ns, cx) →
      ∃ n cx', cx.next k = .ok (n, cx') ∧ n.toNat = cx.count k + 1) ∧
    run {} [.set "n" (18446744073709551615 : Nat), .next "n"] = .error .add := by
  refine ⟨fun h => ?_, by rfl⟩
  have hset : run {} [.set "n" (18446744073709551615 : Nat)] =
      .ok ([], ⟨.ofList [("n", (18446744073709551615 : Nat))]⟩) := by rfl
  obtain ⟨n, cx', hn, -⟩ := h _ _ _ "n" hset
  have hover := next_eq_error.2 (show UInt64.size ≤ (⟨.ofList [("n", (18446744073709551615 : Nat))]⟩ : Context).count "n" + 1
    by decide +kernel)
  rw [hover] at hn
  cases hn

end RichDoc.Context
