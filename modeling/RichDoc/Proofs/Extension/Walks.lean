import Mathlib.Logic.Relation
import Mathlib.Data.List.Chain
import Mathlib.Data.List.Nodup
import RichDoc.Extension.Composer

/-!
# Walks through a library

`Library.Walk lib rs l`: a depth-first walk from the places `rs` comes to the places `l`, in this order, to each
before what it needs and as often as the walk comes to it. There is a walk exactly when it runs into no circle.
`Library.visit` is the way that a composer takes, with nothing registered: it passes over what it has met. Still it
meets the places of the walk in the order of the walk (`visitFrom_eq`), because all below a place that it passes over
has been met as well (`Settled`). It reports a circle exactly when one of the places it can reach needs itself
(`circle_visit_eq_none_iff`).
-/

namespace RichDoc

section FirstOccurrences
variable {α : Type} [BEq α] [LawfulBEq α]

theorem filter_eraseDups (p : α → Bool) (l : List α) : (l.filter p).eraseDups = l.eraseDups.filter p := by
  induction hn : l.length using Nat.strongRecOn generalizing l with
  | ind n ih =>
    cases l with
    | nil => rfl
    | cons a r =>
      have hlt : (r.filter fun b => !b == a).length < n := by
        have hle := List.length_filter_le (fun b => !b == a) r
        rw [List.length_cons] at hn
        omega
      rw [List.eraseDups_cons, List.filter_cons, List.filter_cons, ← ih _ hlt _ rfl, List.filter_filter]
      by_cases ha : p a
      · rw [if_pos ha, if_pos ha, List.eraseDups_cons, List.filter_filter]
        simp only [Bool.and_comm]
      · rw [if_neg ha, if_neg ha]
        congr 1
        refine List.filter_congr fun b _ => ?_
        by_cases hb : b = a
        · simp [hb, ha]
        · simp [hb]

theorem eraseDups_cons_eq_filter (a : α) (r : List α) :
    (a :: r).eraseDups = a :: r.eraseDups.filter fun b => !b == a := by
  rw [List.eraseDups_cons, filter_eraseDups]

theorem nodup_eraseDups (l : List α) : l.eraseDups.Nodup := by
  induction l with
  | nil => exact .nil
  | cons a r ih =>
    rw [eraseDups_cons_eq_filter]
    exact List.nodup_cons.2 ⟨by simp, ih.filter _⟩

end FirstOccurrences

/-- How a walk through a library ends: the extensions met, in order, and the circle that stopped it, if one
did. -/
structure Visited where
  order : List Nat
  circle : Option (List Nat)
deriving DecidableEq, Repr

namespace Library
open Relation (ReflTransGen TransGen)

/-- Walks on with `path` the way to where it is, innermost first, and `met` all that it has met, last first. -/
def visitFrom (lib : Library) (path met : List Nat) : List Visit → Visited
  | [] => ⟨met.reverse, none⟩
  | .leave :: r => visitFrom lib path.tail met r
  | .enter i :: r =>
    if path.contains i then ⟨met.reverse, some (circle path i)⟩
    else if hm : i ∈ met then visitFrom lib path met r
    else if hi : i < lib.size then
      visitFrom lib (i :: path) (i :: met) (lib[i].requires.map .enter ++ .leave :: r)
    else visitFrom lib path met r
termination_by todo => ((lib.unmet met).length, todo.length)
decreasing_by
  · exact Prod.Lex.right _ (by simp)
  · exact Prod.Lex.right _ (by simp)
  · exact Prod.Lex.left _ _ (unmet_cons_lt hi hm)
  · exact Prod.Lex.right _ (by simp)

/-- The requested extensions and all that they need, in order. -/
def visit (lib : Library) (requested : List Nat) : Visited := visitFrom lib [] [] (requested.map .enter)

variable {lib : Library} {path met rs l : List Nat} {todo : List Visit} {i j : Nat} {e : Extension}

/-- The extension at place `i` needs the one at place `j`. -/
def Needs (lib : Library) (i j : Nat) : Prop := ∃ e, lib[i]? = some e ∧ j ∈ e.requires

/-- The extension at place `i` is requested or needed, directly or through others. -/
def Reaches (lib : Library) (requested : List Nat) (i : Nat) : Prop :=
  i < lib.size ∧ ∃ r ∈ requested, ReflTransGen lib.Needs r i

/-- The places that a depth-first walk from the first list comes to. -/
inductive Walk (lib : Library) : List Nat → List Nat → Prop where
  | done : Walk lib [] []
  | skip {i : Nat} {r after : List Nat} (h : lib[i]? = none) (ha : Walk lib r after) : Walk lib (i :: r) after
  | enter {i : Nat} {e : Extension} {r below after : List Nat} (h : lib[i]? = some e)
    (hb : Walk lib e.requires below) (ha : Walk lib r after) : Walk lib (i :: r) (i :: (below ++ after))

theorem Needs.lt (h : lib.Needs i j) : i < lib.size := by
  obtain ⟨e, he, -⟩ := h
  exact (Array.getElem?_eq_some_iff.1 he).1

namespace Walk

theorem append {rs' l' : List Nat} (h : lib.Walk rs l) (h' : lib.Walk rs' l') :
    lib.Walk (rs ++ rs') (l ++ l') := by
  induction h with
  | done => exact h'
  | skip hi _ ih => exact .skip hi ih
  | enter hi hb _ _ ih =>
    rw [List.cons_append, List.cons_append, List.append_assoc]
    exact .enter hi hb ih

/-- There is at most one walk. -/
theorem unique {l' : List Nat} (h : lib.Walk rs l) (h' : lib.Walk rs l') : l = l' := by
  induction h generalizing l' with
  | done =>
    cases h' with
    | done => rfl
  | skip hi _ ih =>
    cases h' with
    | skip _ ha => exact ih ha
    | enter hi' =>
      rw [hi] at hi'
      cases hi'
  | enter hi _ _ ihb iha =>
    cases h' with
    | skip hi' =>
      rw [hi] at hi'
      cases hi'
    | enter hi' hb ha =>
      rw [hi] at hi'
      obtain rfl := Option.some.inj hi'
      rw [ihb hb, iha ha]

/-- A walk comes to what can be reached. -/
theorem mem_iff (h : lib.Walk rs l) : i ∈ l ↔ lib.Reaches rs i := by
  induction h generalizing i with
  | done => simp [Reaches]
  | @skip j r after hj _ ih =>
    rw [ih]
    constructor
    · rintro ⟨hi, x, hx, hxi⟩
      exact ⟨hi, x, List.mem_cons_of_mem _ hx, hxi⟩
    · rintro ⟨hi, x, hx, hxi⟩
      rcases List.mem_cons.1 hx with rfl | hx
      · rcases hxi.cases_head with rfl | ⟨y, ⟨e, he, -⟩, -⟩
        · rw [Array.getElem?_eq_getElem hi] at hj
          cases hj
        · rw [hj] at he
          cases he
      · exact ⟨hi, x, hx, hxi⟩
  | @enter j e r below after hj _ _ ihb iha =>
    rw [List.mem_cons, List.mem_append, ihb, iha]
    constructor
    · rintro (rfl | ⟨hi, x, hx, hxi⟩ | ⟨hi, x, hx, hxi⟩)
      · exact ⟨(Array.getElem?_eq_some_iff.1 hj).1, i, List.mem_cons_self, .refl⟩
      · exact ⟨hi, j, List.mem_cons_self, hxi.head ⟨e, hj, hx⟩⟩
      · exact ⟨hi, x, List.mem_cons_of_mem _ hx, hxi⟩
    · rintro ⟨hi, x, hx, hxi⟩
      rcases List.mem_cons.1 hx with rfl | hx
      · rcases hxi.cases_head with rfl | ⟨y, ⟨e', he', hy⟩, hyi⟩
        · exact .inl rfl
        · rw [hj] at he'
          obtain rfl := Option.some.inj he'
          exact .inr (.inl ⟨hi, y, hy, hyi⟩)
      · exact .inr (.inr ⟨hi, x, hx, hxi⟩)

/-- Where a walk ends, so does every way along what is needed. -/
theorem acc (h : lib.Walk rs l) : ∀ r ∈ rs, Acc (fun j i => lib.Needs i j) r := by
  induction h with
  | done => simp
  | skip hi _ ih =>
    refine List.forall_mem_cons.2 ⟨.intro _ ?_, ih⟩
    rintro j ⟨e, he, -⟩
    rw [hi] at he
    cases he
  | enter hi _ _ ihb iha =>
    refine List.forall_mem_cons.2 ⟨.intro _ ?_, iha⟩
    rintro j ⟨e, he, hj⟩
    rw [hi] at he
    obtain rfl := Option.some.inj he
    exact ihb j hj

theorem not_self_of_acc {α : Type} {s : α → α → Prop} {a : α} (h : Acc s a) : ¬ s a a := by
  induction h with
  | intro x _ ih => exact fun hx => ih x hx hx

theorem acyclic (h : lib.Walk rs l) (hi : lib.Reaches rs i) : ¬ TransGen lib.Needs i i := by
  obtain ⟨-, r, hr, hri⟩ := hi
  have hacc : Acc (fun j i => lib.Needs i j) i := by
    induction hri with
    | refl => exact h.acc r hr
    | tail _ hstep ih => exact ih.inv hstep
  intro hcycle
  exact not_self_of_acc hacc.transGen (Relation.transGen_swap.2 hcycle)

end Walk

/-! ### What has been met -/

/-- What has been met after going through the places of `l`, last first. -/
def meet (met l : List Nat) : List Nat := l.foldl (fun m i => if i ∈ m then m else i :: m) met

theorem meet_append (met l l' : List Nat) : meet met (l ++ l') = meet (meet met l) l' := List.foldl_append

theorem meet_cons_of_not_mem (h : i ∉ met) : meet met (i :: l) = meet (i :: met) l := by
  simp [meet, h]

theorem meet_cons_of_mem (h : i ∈ met) : meet met (i :: l) = meet met l := by
  simp [meet, h]

theorem mem_meet : i ∈ meet met l ↔ i ∈ met ∨ i ∈ l := by
  induction l generalizing met with
  | nil => simp [meet]
  | cons j r ih =>
    by_cases hj : j ∈ met
    · rw [meet_cons_of_mem hj, ih, List.mem_cons]
      constructor
      · exact Or.imp_right .inr
      · rintro (hi | rfl | hi)
        exacts [.inl hi, .inl hj, .inr hi]
    · rw [meet_cons_of_not_mem hj, ih, List.mem_cons, List.mem_cons, or_assoc, or_left_comm]

theorem meet_of_subset (h : l ⊆ met) : meet met l = met := by
  induction l with
  | nil => rfl
  | cons j r ih =>
    obtain ⟨hj, hr⟩ := List.cons_subset.1 h
    rw [meet_cons_of_mem hj, ih hr]

/-- What is met anew is met in the order of first visits. -/
theorem reverse_meet (met l : List Nat) :
    (meet met l).reverse = met.reverse ++ (l.filter (· ∉ met)).eraseDups := by
  induction l generalizing met with
  | nil => simp [meet]
  | cons j r ih =>
    by_cases hj : j ∈ met
    · rw [meet_cons_of_mem hj, ih]
      simp [hj]
    · have hrest : r.filter (· ∉ j :: met) = (r.filter (· ∉ met)).filter fun b => !b == j := by
        rw [List.filter_filter]
        refine List.filter_congr fun b _ => ?_
        by_cases hb : b = j <;> simp [hb]
      rw [meet_cons_of_not_mem hj, ih, hrest]
      simp [hj, List.eraseDups_cons]

theorem reverse_meet_nil (l : List Nat) : (meet [] l).reverse = l.eraseDups := by
  simpa using reverse_meet [] l

theorem length_unmet_le (lib : Library) {met' : List Nat} (h : met ⊆ met') :
    (lib.unmet met').length ≤ (lib.unmet met).length := by
  rw [unmet, unmet, ← List.countP_eq_length_filter, ← List.countP_eq_length_filter]
  refine List.countP_mono_left fun i _ hi => ?_
  simp only [decide_eq_true_eq] at hi ⊢
  exact fun hmem => hi (h hmem)

/-! ### The visit -/

/-- All that lies below a place that has been met and left again has been met. -/
def Settled (lib : Library) (path met : List Nat) : Prop :=
  ∀ i ∈ met, i ∉ path → ∃ l, lib.Walk [i] l ∧ l ⊆ met

theorem Settled.enter (hs : lib.Settled path met) : lib.Settled (i :: path) (i :: met) := by
  intro j hj hjp
  obtain ⟨hji, hjp⟩ := not_or.1 (mt List.mem_cons.2 hjp)
  obtain ⟨l, hl, hsub⟩ := hs j ((List.mem_cons.1 hj).resolve_left hji) hjp
  exact ⟨l, hl, fun x hx => List.mem_cons_of_mem _ (hsub hx)⟩

theorem Settled.leave {below : List Nat} (hs : lib.Settled (i :: path) (meet (i :: met) below))
    (hi : lib[i]? = some e) (hb : lib.Walk e.requires below) : lib.Settled path (meet (i :: met) below) := by
  intro j hj hjp
  by_cases hji : j = i
  · subst hji
    refine ⟨j :: (below ++ []), .enter hi hb .done, fun x hx => ?_⟩
    rw [List.append_nil] at hx
    rcases List.mem_cons.1 hx with rfl | hx
    · exact mem_meet.2 (.inl List.mem_cons_self)
    · exact mem_meet.2 (.inr hx)
  · exact hs j hj (mt List.mem_cons.1 (not_or.2 ⟨hji, hjp⟩))

theorem visitFrom_leave : visitFrom lib path met (.leave :: todo) = visitFrom lib path.tail met todo := by
  rw [visitFrom]

theorem visitFrom_of_mem_path (h : i ∈ path) :
    visitFrom lib path met (.enter i :: todo) = ⟨met.reverse, some (circle path i)⟩ := by
  rw [visitFrom, if_pos (by simpa using h)]

theorem visitFrom_of_mem_met (hp : i ∉ path) (h : i ∈ met) :
    visitFrom lib path met (.enter i :: todo) = visitFrom lib path met todo := by
  rw [visitFrom, if_neg (by simpa using hp), dif_pos h]

theorem visitFrom_of_none (hp : i ∉ path) (h : lib[i]? = none) :
    visitFrom lib path met (.enter i :: todo) = visitFrom lib path met todo := by
  have hi : ¬ i < lib.size := by simpa using h
  rw [visitFrom, if_neg (by simpa using hp), dif_neg hi]
  split <;> rfl

theorem visitFrom_of_some (hp : i ∉ path) (hm : i ∉ met) (h : lib[i]? = some e) :
    visitFrom lib path met (.enter i :: todo) =
      visitFrom lib (i :: path) (i :: met) (e.requires.map .enter ++ .leave :: todo) := by
  obtain ⟨hi, rfl⟩ := Array.getElem?_eq_some_iff.1 h
  rw [visitFrom, if_neg (by simpa using hp), dif_neg hm, dif_pos hi]

/-- A visit that meets no circle meets the places of a walk in the order of the walk. -/
theorem visitFrom_eq (hs : lib.Settled path met)
    (hc : (visitFrom lib path met (rs.map .enter ++ todo)).circle = none) :
    ∃ l, lib.Walk rs l ∧ lib.Settled path (meet met l) ∧
      visitFrom lib path met (rs.map .enter ++ todo) = visitFrom lib path (meet met l) todo := by
  -- by the number of places that have not been met, and for equal numbers by the places that are left to go to
  induction hn : (lib.unmet met).length using Nat.strongRecOn generalizing path met rs todo with
  | ind n ih =>
    induction rs with
    | nil => exact ⟨[], .done, hs, rfl⟩
    | cons i r ihr =>
      rw [List.map_cons, List.cons_append] at hc ⊢
      by_cases hp : i ∈ path
      · rw [visitFrom_of_mem_path hp] at hc
        cases hc
      by_cases hm : i ∈ met
      · rw [visitFrom_of_mem_met hp hm] at hc ⊢
        obtain ⟨l, hl, hs', heq⟩ := ihr hc
        obtain ⟨l', hl', hsub⟩ := hs i hm hp
        refine ⟨l' ++ l, hl'.append hl, ?_, ?_⟩ <;> rw [meet_append, meet_of_subset hsub]
        · exact hs'
        · exact heq
      cases he : lib[i]? with
      | none =>
        rw [visitFrom_of_none hp he] at hc ⊢
        obtain ⟨l, hl, hs', heq⟩ := ihr hc
        exact ⟨l, .skip he hl, hs', heq⟩
      | some e =>
        rw [visitFrom_of_some hp hm he] at hc ⊢
        have hlt := unmet_cons_lt (Array.getElem?_eq_some_iff.1 he).1 hm
        obtain ⟨below, hbelow, hs₁, heq₁⟩ := ih _ (hn ▸ hlt) hs.enter hc rfl
        rw [heq₁, visitFrom_leave, List.tail_cons] at hc ⊢
        have hlt' : (lib.unmet (meet (i :: met) below)).length < n := by
          have hsub : i :: met ⊆ meet (i :: met) below := fun x hx => mem_meet.2 (.inl hx)
          have hle := lib.length_unmet_le hsub
          omega
        obtain ⟨after, hafter, hs₂, heq₂⟩ := ih _ hlt' (hs₁.leave he hbelow) hc rfl
        refine ⟨i :: (below ++ after), .enter he hbelow hafter, ?_, ?_⟩ <;>
          rw [meet_cons_of_not_mem hm, meet_append]
        · exact hs₂
        · exact heq₂

/-- A visit that meets no circle meets each place of a walk at its first visit. -/
theorem exists_walk_visit {requested : List Nat} (hc : (lib.visit requested).circle = none) :
    ∃ l, lib.Walk requested l ∧ (lib.visit requested).order = l.eraseDups := by
  have hs : lib.Settled [] [] := by simp [Settled]
  have hvisit : lib.visit requested = visitFrom lib [] [] (requested.map .enter ++ []) := by
    rw [List.append_nil, visit]
  rw [hvisit] at hc ⊢
  obtain ⟨l, hl, -, heq⟩ := visitFrom_eq hs hc
  refine ⟨l, hl, ?_⟩
  rw [heq, visitFrom, ← reverse_meet_nil]

section Order
variable {requested : List Nat}

/-- A visit goes on from what has been met. -/
theorem exists_order_visitFrom (lib : Library) (path met : List Nat) (todo : List Visit) :
    ∃ new, (visitFrom lib path met todo).order = met.reverse ++ new := by
  fun_induction visitFrom lib path met todo with
  | case1 => exact ⟨[], (List.append_nil _).symm⟩
  | case2 path met r ih => exact ih
  | case3 path met i r hp => exact ⟨[], (List.append_nil _).symm⟩
  | case4 path met i r _ _ ih => exact ih
  | case5 path met i r _ hi _ ih =>
    obtain ⟨new, hnew⟩ := ih
    exact ⟨i :: new, by rw [hnew, List.reverse_cons, List.append_assoc, List.singleton_append]⟩
  | case6 path met i r _ _ _ ih => exact ih

theorem nodup_order_visitFrom (hm : met.Nodup) : (visitFrom lib path met todo).order.Nodup := by
  fun_induction visitFrom lib path met todo with
  | case1 => exact List.nodup_reverse.2 hm
  | case2 path met r ih => exact ih hm
  | case3 path met i r hp => exact List.nodup_reverse.2 hm
  | case4 path met i r _ _ ih => exact ih hm
  | case5 path met i r _ hi _ ih => exact ih (List.nodup_cons.2 ⟨hi, hm⟩)
  | case6 path met i r _ _ _ ih => exact ih hm

/-- A visit, also one that a circle stops, meets no place twice. -/
theorem nodup_order (lib : Library) (requested : List Nat) : (lib.visit requested).order.Nodup :=
  nodup_order_visitFrom .nil

theorem mem_order (hc : (lib.visit requested).circle = none) :
    i ∈ (lib.visit requested).order ↔ lib.Reaches requested i := by
  obtain ⟨l, hl, ho⟩ := exists_walk_visit hc
  rw [ho, List.mem_eraseDups, hl.mem_iff]

end Order

/-! ### Circles -/

/-- What is left to do inside each extension on the path is to go to places that it needs. -/
def Pending (lib : Library) : List Nat → List Visit → Prop
  | _, [] => True
  | path, .leave :: r => Pending lib path.tail r
  | path, .enter i :: r => (∀ p ∈ path.head?, lib.Needs p i) ∧ Pending lib path r

theorem pending_requires (hi : lib[i]? = some e) (hp : lib.Pending path todo) :
    lib.Pending (i :: path) (e.requires.map .enter ++ .leave :: todo) := by
  have hsub : ∀ js, js ⊆ e.requires → lib.Pending (i :: path) (js.map .enter ++ .leave :: todo) := by
    intro js
    induction js with
    | nil => exact fun _ => hp
    | cons j r ih =>
      intro hjs
      obtain ⟨hj, hr⟩ := List.cons_subset.1 hjs
      refine ⟨fun p hp => ?_, ih hr⟩
      obtain rfl := Option.some.inj hp
      exact ⟨e, hi, hj⟩
  exact hsub _ (List.Subset.refl _)

/-- The places go round in a circle, each needing the next: the last is the first again, and no other comes twice. -/
def IsCircle (lib : Library) (ids : List Nat) : Prop :=
  ∃ i r, ids = i :: (r ++ [i]) ∧ (i :: r).Nodup ∧ ids.IsChain lib.Needs

theorem IsCircle.exists_cycle {ids : List Nat} (h : lib.IsCircle ids) : ∃ i ∈ ids, TransGen lib.Needs i i := by
  obtain ⟨i, r, rfl, -, hchain⟩ := h
  refine ⟨i, List.mem_cons_self, ?_⟩
  cases r with
  | nil => exact .single (List.isChain_pair.1 hchain)
  | cons j r =>
    obtain ⟨hij, hrest⟩ := List.isChain_cons_cons.1 hchain
    exact .head' hij (List.relationReflTransGen_of_exists_isChain_cons _ hrest (by simp))

theorem circle_eq (path : List Nat) (i : Nat) :
    circle path i = (i :: (path.takeWhile (· ≠ i) ++ [i])).reverse := by simp [circle]

theorem takeWhile_concat_isPrefix (h : i ∈ path) : path.takeWhile (· ≠ i) ++ [i] <+: path := by
  induction path with
  | nil => cases h
  | cons p r ih =>
    by_cases hp : p = i
    · simp [hp]
    · simpa [hp] using ih ((List.mem_cons.1 h).resolve_left (Ne.symm hp))

/-- The path goes without repetition along what is needed, and what is left to do inside each extension on it is to go
to places that it needs. All places that it has come to or may come to satisfy `P`. -/
structure Along (lib : Library) (P : Nat → Prop) (path : List Nat) (todo : List Visit) : Prop where
  nodup : path.Nodup
  chain : path.IsChain fun a b => lib.Needs b a
  pending : lib.Pending path todo
  path : ∀ i ∈ path, i < lib.size ∧ P i
  todo : ∀ i, .enter i ∈ todo → P i

namespace Along
variable {P : Nat → Prop}

theorem leave (h : lib.Along P path (.leave :: todo)) : lib.Along P path.tail todo where
  nodup := h.nodup.tail
  chain := h.chain.tail
  pending := h.pending
  path i hi := h.path i (List.mem_of_mem_tail hi)
  todo i hi := h.todo i (List.mem_cons_of_mem _ hi)

theorem skip (h : lib.Along P path (.enter i :: todo)) : lib.Along P path todo where
  nodup := h.nodup
  chain := h.chain
  pending := h.pending.2
  path := h.path
  todo i hi := h.todo i (List.mem_cons_of_mem _ hi)

theorem chain_cons (h : lib.Along P path (.enter i :: todo)) : (i :: path).IsChain fun a b => lib.Needs b a :=
  List.isChain_cons.2 ⟨fun p hp => h.pending.1 p hp, h.chain⟩

theorem enter (h : lib.Along P path (.enter i :: todo)) (hneeds : ∀ i j, P i → lib.Needs i j → P j) (hp : i ∉ path)
    (he : lib[i]? = some e) : lib.Along P (i :: path) (e.requires.map .enter ++ .leave :: todo) where
  nodup := List.nodup_cons.2 ⟨hp, h.nodup⟩
  chain := h.chain_cons
  pending := pending_requires he h.pending.2
  path := List.forall_mem_cons.2 ⟨⟨(Array.getElem?_eq_some_iff.1 he).1, h.todo i List.mem_cons_self⟩, h.path⟩
  todo j hj := by
    rcases List.mem_append.1 hj with hj | hj
    · obtain ⟨k, hk, heq⟩ := List.mem_map.1 hj
      obtain rfl := Visit.enter.inj heq
      exact hneeds i k (h.todo i List.mem_cons_self) ⟨e, he, hk⟩
    · rcases List.mem_cons.1 hj with hj | hj
      · cases hj
      · exact h.todo j (List.mem_cons_of_mem _ hj)

/-- To come to a place of the path again closes a circle. -/
theorem circle (h : lib.Along P path (.enter i :: todo)) (hi : i ∈ path) :
    lib.IsCircle (circle path i) ∧ ∀ x ∈ Library.circle path i, x < lib.size ∧ P x := by
  have hstart := takeWhile_concat_isPrefix hi
  rw [circle_eq]
  refine ⟨⟨i, (path.takeWhile (· ≠ i)).reverse, by simp, ?_, ?_⟩, fun x hx => ?_⟩
  · have hnodup := List.nodup_reverse.2 (hstart.sublist.nodup h.nodup)
    simpa using hnodup
  · rw [List.isChain_reverse]
    exact List.IsChain.prefix h.chain_cons (List.cons_prefix_cons.2 ⟨rfl, hstart⟩)
  · rcases List.mem_cons.1 (List.mem_reverse.1 hx) with rfl | hx
    · exact h.path x hi
    · exact h.path x (hstart.subset hx)

end Along

theorem isCircle_visitFrom {P : Nat → Prop} (hneeds : ∀ i j, P i → lib.Needs i j → P j) {ids : List Nat}
    (h : lib.Along P path todo) (hc : (visitFrom lib path met todo).circle = some ids) :
    lib.IsCircle ids ∧ ∀ i ∈ ids, i < lib.size ∧ P i := by
  fun_induction visitFrom lib path met todo with
  | case1 => cases hc
  | case2 path met r ih => exact ih h.leave hc
  | case3 path met i r hp =>
    obtain rfl := Option.some.inj hc
    exact h.circle (by simpa using hp)
  | case4 path met i r _ _ ih => exact ih h.skip hc
  | case5 path met i r hp _ hi ih =>
    exact ih (h.enter hneeds (by simpa using hp) (Array.getElem?_eq_getElem hi)) hc
  | case6 path met i r _ _ _ ih => exact ih h.skip hc

/-- What a visit meets satisfies what the places on its way do. -/
theorem forall_order_visitFrom {P : Nat → Prop} (hneeds : ∀ i j, P i → lib.Needs i j → P j)
    (h : lib.Along P path todo) (hm : ∀ i ∈ met, i < lib.size ∧ P i) :
    ∀ i ∈ (visitFrom lib path met todo).order, i < lib.size ∧ P i := by
  fun_induction visitFrom lib path met todo with
  | case1 => exact fun i hi => hm i (List.mem_reverse.1 hi)
  | case2 path met r ih => exact ih h.leave hm
  | case3 path met i r hp => exact fun i hi => hm i (List.mem_reverse.1 hi)
  | case4 path met i r _ _ ih => exact ih h.skip hm
  | case5 path met i r hp _ hi ih =>
    refine ih (h.enter hneeds (by simpa using hp) (Array.getElem?_eq_getElem hi)) ?_
    exact List.forall_mem_cons.2 ⟨⟨hi, h.todo i List.mem_cons_self⟩, hm⟩
  | case6 path met i r _ _ _ ih => exact ih h.skip hm

theorem along_requested (lib : Library) (requested : List Nat) :
    lib.Along (fun i => ∃ r ∈ requested, ReflTransGen lib.Needs r i) [] (requested.map .enter) where
  nodup := .nil
  chain := .nil
  pending := by
    have hpending : ∀ rs : List Nat, lib.Pending [] (rs.map .enter) := by
      intro rs
      induction rs with
      | nil => trivial
      | cons r rs ih => exact ⟨by simp, ih⟩
    exact hpending requested
  path := by simp
  todo i hi := ⟨i, by simpa using hi, .refl⟩

theorem reaches_of_mem_order {requested : List Nat} (hi : i ∈ (lib.visit requested).order) :
    lib.Reaches requested i :=
  forall_order_visitFrom (fun _ _ ⟨r, hr, hri⟩ hij => ⟨r, hr, hri.tail hij⟩) (lib.along_requested requested)
    (by simp) i hi

/-- A circle that a visit reports can be reached. -/
theorem isCircle_visit {requested ids : List Nat} (hc : (lib.visit requested).circle = some ids) :
    lib.IsCircle ids ∧ ∀ i ∈ ids, lib.Reaches requested i :=
  isCircle_visitFrom (fun _ _ ⟨r, hr, hri⟩ hij => ⟨r, hr, hri.tail hij⟩) (lib.along_requested requested) hc

/-- A visit reports no circle exactly when nothing that it can reach needs itself. -/
theorem circle_visit_eq_none_iff {requested : List Nat} :
    (lib.visit requested).circle = none ↔ ∀ i, lib.Reaches requested i → ¬ TransGen lib.Needs i i := by
  constructor
  · intro hc i hi
    obtain ⟨l, hl, -⟩ := exists_walk_visit hc
    exact hl.acyclic hi
  · intro hacyclic
    cases hc : (lib.visit requested).circle with
    | none => rfl
    | some ids =>
      obtain ⟨hcircle, hreaches⟩ := isCircle_visit hc
      obtain ⟨i, hi, hcycle⟩ := hcircle.exists_cycle
      exact absurd hcycle (hacyclic i (hreaches i hi))

end Library
end RichDoc
