import RichDoc.Proofs.Content.Rounds

/-!
# Matching decides the language

Where a match can end is where a word of the language does (`ends_follows`). Matching answers, and then with what the
language says, unless somewhere a repetition outruns the count of its rounds (`Overruns`): one without an upper bound
that is still gone on from when the count is the largest word. On lists that fit a word this takes a repetition of at
least that many rounds (`Bounded`), and there is one (`accepts_endless`).
-/

namespace RichDoc.Content

variable {isA : String → String → Bool} {types : List String} {c : Content} {cs : List Content} {n : String}
  {least : UInt64} {most : Option UInt64} {p q : Nat}

/-- Matching from `p` on outruns the count of rounds. -/
inductive Overruns (isA : String → String → Bool) (types : List String) : Content → Nat → Prop where
  | seq {before after : List Content} {c : Content} {p q : Nat} (hq : Spells types (languageInOrder isA before) p q)
    (h : Overruns isA types c q) : Overruns isA types (.seq (before ++ c :: after)) p
  | choice {cs : List Content} {c : Content} {p : Nat} (hc : c ∈ cs) (h : Overruns isA types c p) :
    Overruns isA types (.choice cs) p
  | item {c : Content} {least : UInt64} {most : Option UInt64} {p k q : Nat}
    (hk : GoesOn types (language isA c) least most p k) (hq : Spells types (language isA c ^ k) p q)
    (h : Overruns isA types c q) : Overruns isA types (.repeated c least most) p
  | count {c : Content} {least : UInt64} {most : Option UInt64} {p : Nat}
    (h : GoesOn types (language isA c) least most p (UInt64.size - 1)) : Overruns isA types (.repeated c least most) p

/-! ### Where matches end -/

theorem name_follows (n : String) : Follows (ends isA types.toArray (name n)) types (language isA (name n)) := by
  intro p qs h q
  have hhead (t : String) : [t] <+: types.drop p ↔ types[p]? = some t := by
    rw [← List.head?_drop]
    cases types.drop p <;> simp [List.cons_prefix_cons, eq_comm]
  simp only [ends, List.getElem?_toArray] at h
  simp only [Spells, mem_language_name]
  constructor
  · intro hq
    split at h
    · next t ht =>
      cases h
      split at hq
      · next hn => exact ⟨[t], ⟨t, hn, rfl⟩, (hhead t).2 ht, by simpa using hq⟩
      · simp at hq
    · cases h
      simp at hq
  · rintro ⟨-, ⟨t, hn, rfl⟩, hpre, rfl⟩
    rw [(hhead t).1 hpre] at h
    cases h
    simp [hn]

mutual
/-- A match of an expression from `p` can end at `q` if a word of its language stands there. -/
theorem ends_follows : (c : Content) → Follows (ends isA types.toArray c) types (language isA c)
  | name n => name_follows n
  | seq cs => fun p qs h q => by
    rw [ends] at h
    rw [language, mem_endsInOrder cs h]
    simp
  | choice cs => fun p qs h q => by
    rw [ends, map_eq_ok] at h
    obtain ⟨rs, h, rfl⟩ := h
    rw [language, List.mem_eraseDups, mem_endsOfAny cs h]
  | repeated c least most => fun p qs h q => by
    rw [ends] at h
    rw [mem_rounds (ends_follows c) (.start _ _ _ _ p) h]
    simp only [Spells, mem_language_repeated]
    exact ⟨fun ⟨k, hk, hm, w, hw, h⟩ => ⟨w, ⟨k, hk, hm, hw⟩, h⟩, fun ⟨w, ⟨k, hk, hm, hw⟩, h⟩ => ⟨k, hk, hm, w, hw, h⟩⟩

theorem mem_endsInOrder : (cs : List Content) → ∀ {ps qs : List Nat}, endsInOrder isA types.toArray cs ps = .ok qs →
    ∀ {q}, q ∈ qs ↔ ∃ p ∈ ps, Spells types (languageInOrder isA cs) p q
  | [], ps, qs, h, q => by
    cases h
    simp [languageInOrder, Spells.one]
  | c :: r, ps, qs, h, q => by
    obtain ⟨rs, hrs, h⟩ := bind_eq_ok.1 h
    have hfirst (s : Nat) := (ends_follows c).mem_image hrs (q := s)
    have hrest : q ∈ qs ↔ ∃ s ∈ rs, Spells types (languageInOrder isA r) s q := by
      split at h
      · next hnil =>
        cases h
        simp [List.isEmpty_iff.1 hnil]
      · exact mem_endsInOrder r h
    simp only [hrest, hfirst, languageInOrder, Spells.mul]
    exact ⟨fun ⟨s, ⟨p, hp, hs⟩, hq⟩ => ⟨p, hp, s, hs, hq⟩, fun ⟨p, hp, s, hs, hq⟩ => ⟨s, ⟨p, hp, hs⟩, hq⟩⟩

theorem mem_endsOfAny : (cs : List Content) → ∀ {p : Nat} {qs : List Nat}, endsOfAny isA types.toArray cs p = .ok qs →
    ∀ {q}, q ∈ qs ↔ Spells types (languageOfAny isA cs) p q
  | [], p, qs, h, q => by
    cases h
    simp [languageOfAny, Spells]
  | c :: r, p, qs, h, q => by
    obtain ⟨rs, hrs, h⟩ := bind_eq_ok.1 h
    obtain ⟨rest, hrest, h⟩ := bind_eq_ok.1 h
    cases h
    rw [languageOfAny, List.mem_append, ends_follows c p rs hrs, mem_endsOfAny r hrest, Spells.add]
end

/-! ### Where matching overflows -/

theorem overruns_seq_nil : ¬ Overruns isA types (seq []) p := by
  intro h
  generalize hc : seq [] = c at h
  cases h with
  | seq => simp at hc
  | choice | item | count => cases hc

theorem overruns_seq_cons : Overruns isA types (seq (c :: cs)) p ↔
    Overruns isA types c p ∨ ∃ q, Spells types (language isA c) p q ∧ Overruns isA types (seq cs) q := by
  constructor
  · intro h
    generalize he : seq (c :: cs) = e at h
    cases h with
    | @seq before after d p r hr h =>
      cases before with
      | nil =>
        obtain ⟨rfl, rfl⟩ : c = d ∧ cs = after := by simpa using he
        obtain rfl := Spells.one.1 hr
        exact .inl h
      | cons b before =>
        obtain ⟨rfl, rfl⟩ : c = b ∧ cs = before ++ d :: after := by simpa using he
        obtain ⟨s, hs, hr⟩ := Spells.mul.1 hr
        exact .inr ⟨s, hs, .seq hr h⟩
    | choice | item | count => cases he
  · rintro (h | ⟨q, hq, h⟩)
    · exact .seq (show Spells types (languageInOrder isA []) p p from Spells.one.2 rfl) h
    · generalize he : seq cs = e at h
      cases h with
      | seq hr h =>
        obtain rfl := Content.seq.inj he
        exact .seq (show Spells types (languageInOrder isA (c :: _)) _ _ from Spells.mul.2 ⟨q, hq, hr⟩) h
      | choice | item | count => cases he

theorem overruns_choice : Overruns isA types (choice cs) p ↔ ∃ c ∈ cs, Overruns isA types c p := by
  constructor
  · intro h
    cases h with
    | choice hc h => exact ⟨_, hc, h⟩
  · rintro ⟨c, hc, h⟩
    exact .choice hc h

theorem overruns_repeated : Overruns isA types (repeated c least most) p ↔
    (∃ k q, GoesOn types (language isA c) least most p k ∧ Spells types (language isA c ^ k) p q ∧
      Overruns isA types c q) ∨ GoesOn types (language isA c) least most p (UInt64.size - 1) := by
  constructor
  · intro h
    cases h with
    | item hk hq h => exact .inl ⟨_, _, hk, hq, h⟩
    | count h => exact .inr h
  · rintro (⟨k, q, hk, hq, h⟩ | h)
    · exact .item hk hq h
    · exact .count h

mutual
theorem ends_eq_error_iff : (c : Content) → ∀ p, ends isA types.toArray c p = .error .add ↔ Overruns isA types c p
  | name n, p => by
    refine iff_of_false ?_ fun h => nomatch h
    simp only [ends]
    split <;> simp
  | seq cs, p => by
    rw [ends, endsInOrder_eq_error_iff cs]
    simp
  | choice cs, p => by
    rw [ends, overruns_choice, ← endsOfAny_eq_error_iff cs]
    exact map_eq_error
  | repeated c least most, p => by
    rw [ends, rounds_eq_error_iff (ends_follows c) (.start _ _ _ _ p), overruns_repeated]
    simp [ends_eq_error_iff c]

theorem endsInOrder_eq_error_iff : (cs : List Content) → ∀ ps,
    endsInOrder isA types.toArray cs ps = .error .add ↔ ∃ p ∈ ps, Overruns isA types (seq cs) p
  | [], ps => by simp [endsInOrder, overruns_seq_nil]
  | c :: r, ps => by
    simp only [endsInOrder, overruns_seq_cons, ← ends_eq_error_iff c]
    cases hrs : image (ends isA types.toArray c) ps with
    | error e =>
      cases e
      obtain ⟨p, hp, hfail⟩ := image_eq_error.1 hrs
      exact iff_of_true rfl ⟨p, hp, .inl hfail⟩
    | ok rs =>
      have hfine (p : Nat) (hp : p ∈ ps) : ends isA types.toArray c p ≠ .error .add := by
        intro hfail
        have := image_eq_error.2 ⟨p, hp, hfail⟩
        simp [hrs] at this
      have hrest : (if rs.isEmpty then Except.ok [] else endsInOrder isA types.toArray r rs) = .error .add ↔
          ∃ s ∈ rs, Overruns isA types (seq r) s := by
        split
        · next hnil => simp [List.isEmpty_iff.1 hnil]
        · exact endsInOrder_eq_error_iff r rs
      refine hrest.trans ?_
      simp only [(ends_follows c).mem_image hrs]
      constructor
      · rintro ⟨s, ⟨p, hp, hs⟩, h⟩
        exact ⟨p, hp, .inr ⟨s, hs, h⟩⟩
      · rintro ⟨p, hp, hfail | ⟨s, hs, h⟩⟩
        · exact absurd hfail (hfine p hp)
        · exact ⟨s, ⟨p, hp, hs⟩, h⟩

theorem endsOfAny_eq_error_iff : (cs : List Content) → ∀ p,
    endsOfAny isA types.toArray cs p = .error .add ↔ ∃ c ∈ cs, Overruns isA types c p
  | [], p => by simp [endsOfAny]
  | c :: r, p => by
    simp only [endsOfAny, List.exists_mem_cons_iff, ← endsOfAny_eq_error_iff r, ← ends_eq_error_iff c]
    cases ends isA types.toArray c p <;> cases endsOfAny isA types.toArray r p <;> simp [bind, Except.bind, pure, Except.pure]
end

/-! ### What matching answers -/

theorem spells_whole {l : Language String} (hstep : Follows (ends isA types.toArray c) types l) {qs : List Nat}
    (h : ends isA types.toArray c 0 = .ok qs) : qs.contains types.length = true ↔ types ∈ l := by
  rw [List.contains_iff_mem, hstep 0 qs h, Spells.whole]

/-- No repetition without an upper bound asks for as many rounds as the largest word. -/
inductive Bounded : Content → Prop where
  | name (n : String) : Bounded (.name n)
  | seq {cs : List Content} (h : ∀ c ∈ cs, Bounded c) : Bounded (.seq cs)
  | choice {cs : List Content} (h : ∀ c ∈ cs, Bounded c) : Bounded (.choice cs)
  | repeated {c : Content} {least : UInt64} {most : Option UInt64} (hc : Bounded c)
    (hleast : most = none → least.toNat < UInt64.size - 1) : Bounded (.repeated c least most)

/-- On a list that fits a word such an expression outruns nothing. -/
theorem not_overruns (hlen : types.length < UInt64.size - 1) (hc : Bounded c) : ¬ Overruns isA types c p := by
  intro h
  induction h with
  | seq _ _ ih =>
    cases hc with
    | seq h => exact ih (h _ (by simp))
  | choice hmem _ ih =>
    cases hc with
    | choice h => exact ih (h _ hmem)
  | item _ _ _ ih =>
    cases hc with
    | repeated hc => exact ih hc
  | @count c least most p hgo =>
    cases hc with
    | repeated _ hleast =>
      have hnone : most = none := by
        rw [Option.eq_none_iff_forall_not_mem]
        intro m hm
        have := hgo.bound m hm
        have := m.toNat_lt_size
        omega
      obtain ⟨q, hq, hnew⟩ := hgo.new _ (hleast hnone) (Nat.le_refl _)
      -- among so many rounds one matches no child, and leaving it out leads to the same place
      exact hnew (UInt64.size - 2) (by have := hleast hnone; omega) (by decide) (Spells.shorten (by omega) hq)

theorem accepts_eq_ok {b : Bool} :
    c.accepts isA types = .ok b ↔ ¬ Overruns isA types c 0 ∧ (b = true ↔ types ∈ c.language isA) := by
  have herror : ends isA types.toArray c 0 = .error .add ↔ Overruns isA types c 0 := ends_eq_error_iff c 0
  rw [accepts]
  cases h : ends isA types.toArray c 0 with
  | error e =>
    cases e
    simp [bind, Except.bind, herror.1 h]
  | ok qs =>
    have hfine : ¬ Overruns isA types c 0 := by simp [← herror, h]
    rw [← spells_whole (ends_follows c) h, and_iff_right hfine, ← Bool.eq_iff_iff, eq_comm]
    simp [bind, Except.bind, pure, Except.pure]

theorem accepts_eq_error : c.accepts isA types = .error .add ↔ Overruns isA types c 0 := by
  rw [← ends_eq_error_iff c 0, accepts]
  cases ends isA types.toArray c 0 <;> simp [bind, Except.bind, pure, Except.pure]

/-- Matching answers what the language says, unless a repetition outruns the count of its rounds. -/
theorem accepts_eq_iff (c : Content) (isA : String → String → Bool) (types : List String) :
    (∀ b, c.accepts isA types = .ok b ↔
      ¬ Overruns isA types c 0 ∧ (b = true ↔ types ∈ c.language isA)) ∧
    (c.accepts isA types = .error .add ↔ Overruns isA types c 0) ∧
    (Bounded c → types.length < UInt64.size - 1 → ¬ Overruns isA types c 0) :=
  ⟨fun _ => accepts_eq_ok, accepts_eq_error, fun hc hlen => not_overruns hlen hc⟩

/-! ### A name repeated without end -/

theorem spells_name_pow {k : Nat} : Spells types (language isA (name n) ^ k) 0 q ↔
    q = k ∧ k ≤ types.length ∧ ∀ t ∈ types.take k, isA t n = true := by
  simp only [Spells, mem_language_name_pow, List.drop_zero, Nat.zero_add]
  constructor
  · rintro ⟨w, ⟨rfl, hall⟩, hpre, rfl⟩
    exact ⟨rfl, hpre.length_le, List.prefix_iff_eq_take.1 hpre ▸ hall⟩
  · rintro ⟨rfl, hle, hall⟩
    have hlen : (types.take q).length = q := List.length_take_of_le hle
    exact ⟨_, ⟨hlen, hall⟩, List.take_prefix _ _, hlen.symm⟩

theorem overruns_name : Overruns isA types (repeated (name n) least none) 0 ↔
    UInt64.size - 1 ≤ types.length ∧ ∀ t ∈ types.take (UInt64.size - 1), isA t n = true := by
  have hname (q : Nat) : ¬ Overruns isA types (name n) q := fun h => nomatch h
  simp only [overruns_repeated, hname, and_false, exists_false, false_or]
  constructor
  · intro h
    obtain ⟨q, hq⟩ := h.leads
    exact (spells_name_pow.1 hq).2
  · rintro ⟨hle, hall⟩
    refine ⟨by simp, ⟨_, spells_name_pow.2 ⟨rfl, hle, hall⟩⟩, fun j _ hj => ⟨j, ?_, fun i _ hi h => ?_⟩⟩
    · refine spells_name_pow.2 ⟨rfl, hj.trans hle, fun t ht => hall t ?_⟩
      exact (List.take_sublist_take_left hj).subset ht
    · exact absurd (spells_name_pow.1 h).1 (Nat.ne_of_gt hi)

/-- A name repeated without end matches what is long enough, and fits a word, and goes by the name. -/
theorem accepts_repeated_name : (repeated (name n) least none).accepts isA types = .ok true ↔
    least.toNat ≤ types.length ∧ types.length < UInt64.size - 1 ∧ ∀ t ∈ types, isA t n = true := by
  have hlanguage : types ∈ language isA (repeated (name n) least none) ↔
      least.toNat ≤ types.length ∧ ∀ t ∈ types, isA t n = true := by
    simp only [mem_language_repeated, mem_language_name_pow]
    constructor
    · rintro ⟨k, hk, -, rfl, hall⟩
      exact ⟨hk, hall⟩
    · rintro ⟨hk, hall⟩
      exact ⟨types.length, hk, by simp, rfl, hall⟩
  rw [accepts_eq_ok, overruns_name, hlanguage]
  constructor
  · rintro ⟨hfits, hiff⟩
    obtain ⟨hleast, hall⟩ := hiff.1 rfl
    refine ⟨hleast, Nat.lt_of_not_le fun hle => hfits ⟨hle, fun t ht => hall t (List.mem_of_mem_take ht)⟩, hall⟩
  · rintro ⟨hleast, hlt, hall⟩
    exact ⟨fun h => Nat.not_le_of_lt hlt h.1, by simpa using ⟨hleast, hall⟩⟩

/-! ### Where it overflows -/

/-- Any number of parts, and of those as many as the largest word or more. -/
def endless : Content := .repeated (.repeated (.name "x") 0 none) 18446744073709551615 none

/-- No parts at all are as many parts as one likes, but counting them overflows. -/
theorem accepts_endless : (∀ isA : String → String → Bool, endless.accepts isA [] = .error .add ∧ [] ∈ endless.language isA) ∧
    ¬ ∀ (c : Content) (isA : String → String → Bool) (types : List String),
      ∃ b, c.accepts isA types = .ok b ∧ (b = true ↔ types ∈ c.language isA) := by
  have hempty (isA : String → String → Bool) (k : Nat) : [] ∈ language isA (.repeated (.name "x") 0 none) ^ k := by
    have hone : [] ∈ language isA (.repeated (.name "x") 0 none) := ⟨0, Nat.le_refl 0, by simp, by simp⟩
    induction k with
    | zero => simp [Language.mem_one]
    | succ k ih => exact pow_succ (language isA _) k ▸ Language.append_mem_mul ih hone
  have hover (isA : String → String → Bool) : endless.accepts isA [] = .error .add := by
    refine accepts_eq_error.2 (.count ⟨by simp, ⟨0, [], hempty isA _, by simp, rfl⟩, fun j hj hj' => ?_⟩)
    exact absurd hj' (Nat.not_le_of_lt hj)
  refine ⟨fun isA => ⟨hover isA, 18446744073709551615, by decide, by simp, hempty isA _⟩, fun h => ?_⟩
  obtain ⟨b, hb, -⟩ := h endless (fun _ _ => true) []
  simp [hover] at hb

end RichDoc.Content
