import Mathlib.Order.Bounds.Basic
import Mathlib.Order.Nat
import RichDoc.Html.Pairing

/-!
# The fragments of a table and their closing tags

`collect` finds the fragments in document order (`pairwise_collect`), each at the place of a literal
with a span (`mem_collect`). `closings` gives for each of them what a search forward finds
(`getElem?_closings`), although it is filled from the right: the first place behind it with a closing tag of
its name (`nearest_closings`).
-/

namespace RichDoc.Html

namespace Fragment
variable {f : Fragment} {n m : String}

theorem isClosing_iff : f.isClosing n = true ↔ f = closing n := by rw [isClosing, beq_iff_eq]

theorem name?_eq_of_isClosing (h : f.isClosing n = true) : f.name? = some n := by
  rw [isClosing_iff.1 h, name?]

theorem isClosing_eq_false (h : f.name? = none) : f.isClosing n = false := by
  cases hf : f.isClosing n
  · rfl
  · simp [name?_eq_of_isClosing hf] at h

end Fragment

/-! ### Closing tags -/

/-- The first closing tag of that name, numbered from `i` on. -/
def findClosing (i : Nat) (n : String) (fs : List Fragment) : Option Nat :=
  (fs.findIdx? (·.isClosing n)).map (i + ·)

theorem findClosing_cons (i : Nat) (n : String) (f : Fragment) (fs : List Fragment) :
    findClosing i n (f :: fs) = if f.isClosing n then some i else findClosing (i + 1) n fs := by
  simp only [findClosing, List.findIdx?_cons]
  split
  · rfl
  · rw [Option.map_map]
    congr 1
    funext k
    simp only [Function.comp_apply]
    omega

/-- The search stops at a closing tag of the name, and passes none before. -/
theorem isLeast_of_findClosing {b c : Nat} {n : String} {fs : List Fragment}
    (h : findClosing b n (fs.drop b) = some c) : IsLeast {j | b ≤ j ∧ fs[j]? = some (.closing n)} c := by
  obtain ⟨m, hm, rfl⟩ := Option.map_eq_some_iff.1 h
  obtain ⟨hlen, hclosing, hpassed⟩ := List.findIdx?_eq_some_iff_getElem.1 hm
  rw [Fragment.isClosing_iff] at hclosing
  refine ⟨⟨Nat.le_add_right b m, ?_⟩, fun j ⟨hbj, hj⟩ => ?_⟩
  · rw [← List.getElem?_drop, List.getElem?_eq_getElem hlen, hclosing]
  · by_contra hlt
    obtain ⟨d, rfl⟩ := Nat.exists_eq_add_of_le hbj
    have hd : d < m := by omega
    rw [← List.getElem?_drop, List.getElem?_eq_some_iff] at hj
    exact hpassed d hd (Fragment.isClosing_iff.2 hj.2)

/-- A search that finds nothing has no closing tag of the name ahead of it. -/
theorem ne_closing_of_findClosing {b j : Nat} {n : String} {fs : List Fragment}
    (h : findClosing b n (fs.drop b) = none) (hbj : b ≤ j) : fs[j]? ≠ some (.closing n) := by
  intro hj
  obtain ⟨d, rfl⟩ := Nat.exists_eq_add_of_le hbj
  rw [← List.getElem?_drop] at hj
  have hpassed := List.findIdx?_eq_none_iff.1 (Option.map_eq_none_iff.1 h) _ (List.mem_of_getElem? hj)
  exact Bool.false_ne_true (hpassed.symm.trans (Fragment.isClosing_iff.2 rfl))

/-- The closing tag that a search behind fragment `k` finds first, of the name of that fragment. -/
def laterClosing (i : Nat) (fs : List Fragment) (k : Nat) : Option Nat :=
  (fs[k]?.bind Fragment.name?).bind fun n => findClosing (i + (k + 1)) n (fs.drop (k + 1))

/-- Fragment `c` is a closing tag behind fragment `k` and has its name. -/
structure Closes (fs : List Fragment) (k c : Nat) : Prop where
  lt : k < c
  sameName : ∃ f n, fs[k]? = some f ∧ f.name? = some n ∧ fs[c]? = some (.closing n)

section
variable {fs : List Fragment} {k c : Nat}

theorem Closes.lt_length (h : Closes fs k c) : c < fs.length := by
  obtain ⟨_, _, -, -, hc⟩ := h.sameName
  exact (List.getElem?_eq_some_iff.1 hc).1

theorem not_closes_of_name?_eq_none {f : Fragment} (hf : fs[k]? = some f) (hname : f.name? = none) (c : Nat) :
    ¬Closes fs k c := by
  rintro ⟨-, f', n, hf', hn, -⟩
  obtain rfl : f = f' := Option.some.inj (hf.symm.trans hf')
  simp [hname] at hn

theorem isLeast_of_laterClosing (h : laterClosing 0 fs k = some c) : IsLeast {j | Closes fs k j} c := by
  rw [laterClosing, Nat.zero_add] at h
  obtain ⟨n, hname, hfind⟩ := Option.bind_eq_some_iff.1 h
  obtain ⟨f, hf, hn⟩ := Option.bind_eq_some_iff.1 hname
  obtain ⟨⟨hkc, hc⟩, hleast⟩ := isLeast_of_findClosing hfind
  refine ⟨⟨hkc, f, n, hf, hn, hc⟩, fun j ⟨hkj, f', n', hf', hn', hj⟩ => ?_⟩
  obtain rfl : f = f' := Option.some.inj (hf.symm.trans hf')
  obtain rfl : n = n' := Option.some.inj (hn.symm.trans hn')
  exact hleast ⟨hkj, hj⟩

theorem not_closes_of_laterClosing (h : laterClosing 0 fs k = none) (c : Nat) : ¬Closes fs k c := by
  rintro ⟨hkc, f, n, hf, hn, hc⟩
  rw [laterClosing, Nat.zero_add, hf, Option.bind_some, hn, Option.bind_some] at h
  exact ne_closing_of_findClosing h hkc hc

theorem laterClosing_eq_some_iff : laterClosing 0 fs k = some c ↔ IsLeast {j | Closes fs k j} c := by
  refine ⟨isLeast_of_laterClosing, fun hc => ?_⟩
  cases hfound : laterClosing 0 fs k with
  | none => exact (not_closes_of_laterClosing hfound c hc.1).elim
  | some d => rw [(isLeast_of_laterClosing hfound).unique hc]

theorem laterClosing_eq_none_iff : laterClosing 0 fs k = none ↔ ∀ c, ¬Closes fs k c := by
  refine ⟨not_closes_of_laterClosing, fun hno => ?_⟩
  cases hfound : laterClosing 0 fs k with
  | none => rfl
  | some d => exact (hno d (isLeast_of_laterClosing hfound).1).elim

end

/-- The map that is filled along with the table gives for each name what a search from there on finds. -/
theorem lookup_closingFrom (i : Nat) (fs : List Fragment) (n : String) :
    (closingFrom i fs).2.lookup n = findClosing i n fs := by
  induction fs generalizing i with
  | nil => rfl
  | cons f r ih =>
    rw [findClosing_cons, closingFrom]
    cases hf : f.name? with
    | none => simp [Fragment.isClosing_eq_false hf, ih]
    | some m =>
      by_cases hc : f.isClosing n = true
      · obtain rfl : m = n := Option.some.inj (hf.symm.trans (Fragment.name?_eq_of_isClosing hc))
        simp [hc]
      · by_cases hm : f.isClosing m = true
        · have hne : n ≠ m := by rintro rfl; exact hc hm
          simp [hm, hc, List.lookup_cons, beq_false_of_ne hne, ih]
        · simp [hm, hc, ih]

theorem getElem?_closingFrom (i : Nat) (fs : List Fragment) {k : Nat} (hk : k < fs.length) :
    (closingFrom i fs).1[k]? = some (laterClosing i fs k) := by
  induction fs generalizing i k with
  | nil => simp at hk
  | cons f r ih =>
    cases k with
    | zero =>
      -- the fragment reads the map of those behind it: it goes into the map after that, so it never finds itself
      rw [closingFrom, laterClosing]
      cases hf : f.name? <;> simp [hf, lookup_closingFrom]
    | succ k =>
      have hstep : laterClosing i (f :: r) (k + 1) = laterClosing (i + 1) r k := by
        simp only [laterClosing, List.getElem?_cons_succ, List.drop_succ_cons]
        rw [show i + 1 + (k + 1) = i + (k + 1 + 1) by omega]
      rw [hstep, ← ih (i + 1) (by simpa using hk), closingFrom]
      cases hf : f.name? <;> simp

/-- The table of closing tags holds what a search forward finds. -/
theorem getElem?_closings (fs : List Fragment) {k : Nat} (hk : k < fs.length) :
    (closings fs)[k]? = some (laterClosing 0 fs k) :=
  getElem?_closingFrom 0 fs hk

theorem length_closingFrom (i : Nat) (fs : List Fragment) : (closingFrom i fs).1.length = fs.length := by
  induction fs generalizing i with
  | nil => rfl
  | cons f r ih =>
    rw [closingFrom]
    cases hf : f.name? <;> simp [ih]

theorem getElem?_closings_eq_some_iff {fs : List Fragment} {k : Nat} {r : Option Nat} :
    (closings fs)[k]? = some r ↔ k < fs.length ∧ laterClosing 0 fs k = r := by
  constructor
  · intro h
    have hk : k < fs.length := length_closingFrom 0 fs ▸ (List.getElem?_eq_some_iff.1 h).1
    exact ⟨hk, Option.some.inj ((getElem?_closings fs hk).symm.trans h)⟩
  · rintro ⟨hk, rfl⟩
    exact getElem?_closings fs hk

theorem closes_of_closings {fs : List Fragment} {k c : Nat} (h : (closings fs)[k]? = some (some c)) :
    Closes fs k c :=
  (isLeast_of_laterClosing (getElem?_closings_eq_some_iff.1 h).2).1

/-- One pass from the right fills the table with the nearest closing tags: it has one entry for each fragment, this
is the least number of a closing tag behind it that has its name, and it is empty exactly if the fragment has no name
or there is no such tag. -/
theorem nearest_closings (fs : List Fragment) (k : Nat) :
    (closings fs).length = fs.length ∧
      (∀ c, (closings fs)[k]? = some (some c) ↔ IsLeast {j | Closes fs k j} c) ∧
      ((closings fs)[k]? = some none ↔
        ∃ f, fs[k]? = some f ∧ (f.name? = none ∨ ∀ c, ¬Closes fs k c)) := by
  refine ⟨length_closingFrom 0 fs, fun c => ?_, ?_⟩
  · rw [getElem?_closings_eq_some_iff, laterClosing_eq_some_iff]
    exact ⟨And.right, fun hc => ⟨Nat.lt_trans hc.1.lt hc.1.lt_length, hc⟩⟩
  · rw [getElem?_closings_eq_some_iff, laterClosing_eq_none_iff]
    constructor
    · rintro ⟨hk, hno⟩
      exact ⟨fs[k], List.getElem?_eq_getElem hk, .inr hno⟩
    · rintro ⟨f, hf, hname | hno⟩
      · exact ⟨(List.getElem?_eq_some_iff.1 hf).1, not_closes_of_name?_eq_none hf hname⟩
      · exact ⟨(List.getElem?_eq_some_iff.1 hf).1, hno⟩

-- a closing tag looks for the next one, past tags of other names and what is no tag
example : closings [.opening "i", .closing "b", .comment, .closing "i", .opening "b", .closing "b", .opening "b"] =
    [some 3, some 5, none, none, some 5, none, none] := by decide

/-! ### Fragments -/

theorem fragmentOf_eq_some {n : Node} {f : Fragment} (h : fragmentOf n = .ok (some f)) :
    n.kind = .html ∧ n.span.isSome = true ∧ n.value.isSome = true := by
  unfold fragmentOf at h
  split at h
  · next hk hp hv => simp [hk, hp, hv]
  · simp at h

/-- The literal that a node is read by. -/
def literal? (n : Node) : Option String := if n.kind = .html ∧ n.span.isSome = true then n.value else none

theorem fragmentOf_eq_ok {n : Node} {f : Option Fragment} :
    fragmentOf n = .ok f ↔ (literal? n).elim (f = none) fun v => Fragment.classify v = .ok f := by
  obtain ⟨kind, value, children, span, data⟩ := n
  have hnone (h : ¬(kind = .html ∧ span.isSome = true ∧ value.isSome = true)) :
      fragmentOf ⟨kind, value, children, span, data⟩ = .ok none := by
    unfold fragmentOf
    split
    · next p v hk hp hv => exact (h ⟨hk, Option.isSome_of_eq_some hp, Option.isSome_of_eq_some hv⟩).elim
    · rfl
  by_cases h : kind = .html ∧ span.isSome = true
  · obtain ⟨rfl, hp⟩ := h
    obtain ⟨p, rfl⟩ := Option.isSome_iff_exists.1 hp
    cases value with
    | none => simp [hnone, literal?, eq_comm]
    | some v => cases hc : Fragment.classify v <;> simp [fragmentOf, literal?, hc]
  · rw [hnone fun h' => h ⟨h'.1, h'.2.1⟩, literal?, if_neg h]
    simp [eq_comm]

theorem fragmentOf_congr {n m : Node} {f : Option Fragment} (h : literal? m = literal? n) :
    fragmentOf m = .ok f ↔ fragmentOf n = .ok f := by
  rw [fragmentOf_eq_ok, fragmentOf_eq_ok, h]

/-- What is a fragment is a literal between angle brackets. -/
theorem isFragment_of_fragmentOf {n : Node} {f : Fragment} (h : fragmentOf n = .ok (some f)) :
    ∃ v, n.value = some v ∧ isFragment v.toList = true := by
  rw [fragmentOf_eq_ok, literal?] at h
  split at h
  · cases hv : n.value with
    | none => simp [hv] at h
    | some v =>
      refine ⟨v, rfl, ?_⟩
      rw [hv, Option.elim_some, Fragment.classify] at h
      cases hc : isFragment v.toList with
      | true => rfl
      | false => simp [hc] at h
  · simp at h

/-- Two literals between angle brackets and what stands between them are no fragment. -/
theorem isFragment_append {u v w : List Char} (hu : isFragment u = true) (hw : isFragment w = true) :
    isFragment (u ++ (v ++ w)) = false := by
  simp only [isFragment, Bool.and_eq_true, beq_iff_eq] at hu hw
  have hcount : ((u ++ (v ++ w)).count '<' == 1) = false := by
    rw [beq_eq_false_iff_ne, List.count_append, List.count_append]
    omega
  rw [isFragment, hcount, Bool.and_false, Bool.false_and]

theorem collect_cons {i : Nat} {s : Slot} {r : List Slot} {fs : List (Nat × Fragment)}
    (h : collect i (s :: r) = .ok fs) :
    ∃ f gs, fragmentOf s.node = .ok f ∧ collect (i + 1) r = .ok gs ∧
      fs = (match f with | some f => (i, f) :: gs | none => gs) := by
  rw [collect] at h
  split at h
  · simp at h
  · next f hf =>
    split at h
    · simp at h
    · next gs hgs => exact ⟨f, gs, hf, hgs, (Except.ok.inj h).symm⟩

/-- Each fragment found is that of the literal at its place. -/
theorem mem_collect {i : Nat} {l : List Slot} {fs : List (Nat × Fragment)} (h : collect i l = .ok fs)
    {x : Nat × Fragment} (hx : x ∈ fs) :
    ∃ m s, x.1 = i + m ∧ l[m]? = some s ∧ fragmentOf s.node = .ok (some x.2) := by
  induction l generalizing i fs with
  | nil =>
    rw [collect] at h
    rw [← Except.ok.inj h] at hx
    simp at hx
  | cons s r ih =>
    obtain ⟨f, gs, hf, hgs, rfl⟩ := collect_cons h
    have hrest (hx : x ∈ gs) :
        ∃ m s', x.1 = i + m ∧ (s :: r)[m]? = some s' ∧ fragmentOf s'.node = .ok (some x.2) := by
      obtain ⟨m, s', hm, hs', hfs⟩ := ih hgs hx
      exact ⟨m + 1, s', by omega, by simpa using hs', hfs⟩
    cases f with
    | none => exact hrest hx
    | some f =>
      rcases List.mem_cons.1 hx with rfl | hx
      · exact ⟨0, s, rfl, rfl, hf⟩
      · exact hrest hx

theorem pairwise_collect {i : Nat} {l : List Slot} {fs : List (Nat × Fragment)} (h : collect i l = .ok fs) :
    fs.Pairwise fun x y => x.1 < y.1 := by
  induction l generalizing i fs with
  | nil =>
    rw [collect] at h
    rw [← Except.ok.inj h]
    exact .nil
  | cons s r ih =>
    obtain ⟨f, gs, -, hgs, rfl⟩ := collect_cons h
    cases f with
    | none => exact ih hgs
    | some f =>
      refine List.pairwise_cons.2 ⟨fun y hy => ?_, ih hgs⟩
      obtain ⟨m, -, hm, -⟩ := mem_collect hgs hy
      show i < y.1
      omega

end RichDoc.Html
