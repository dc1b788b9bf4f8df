import RichDoc.Proofs.Content.Tokens

/-!
# The grammar of content expressions

`IsChoice ts cs`: the tokens `ts` are a choice between the expressions `cs`, by the grammar

    choice ::= sequence ('|' sequence)*      quantified ::= atom quantifier*
    sequence ::= quantified+                 atom ::= word | '(' choice ')'

Reading a text gives the expression that the grammar gives its words and signs, and fails where it gives none
(`read_eq_ok_iff`). What is read at any moment are groups inside each other, each a choice whose last sequence is still
open (`Opened`, `Nested`); reading on goes from such a moment to the next.
-/

namespace RichDoc.Content
open ContentToken

variable {t : ContentToken} {ts us vs : List ContentToken} {c e : Content} {cs ds items done : List Content}
variable {least n : UInt64} {most : Option UInt64} {g : Group} {outer : List Group}

/-! ### The grammar -/

/-- The inside of a pair of braces, up to the closing one, and the bounds that it sets. -/
inductive IsRange : List ContentToken → UInt64 → Option UInt64 → Prop where
  | exact {t : ContentToken} {n : UInt64} (h : Numeral t n) : IsRange [t, .sign '\x7d'] n (some n)
  | atLeast {t : ContentToken} {n : UInt64} (h : Numeral t n) : IsRange [t, .sign ',', .sign '\x7d'] n none
  | between {t u : ContentToken} {n m : UInt64} (h : Numeral t n) (h' : Numeral u m) :
    IsRange [t, .sign ',', u, .sign '\x7d'] n (some m)

inductive IsQuantifier : List ContentToken → UInt64 → Option UInt64 → Prop where
  | any : IsQuantifier [.sign '*'] 0 none
  | some : IsQuantifier [.sign '+'] 1 none
  | optional : IsQuantifier [.sign '?'] 0 (some 1)
  | range {ts : List ContentToken} {least : UInt64} {most : Option UInt64} (h : IsRange ts least most) :
    IsQuantifier (.sign '\x7b' :: ts) least most

mutual
inductive IsAtom : List ContentToken → Content → Prop where
  | name (w : String) : IsAtom [.word w] (.name w)
  | group {ts : List ContentToken} {cs : List Content} (h : IsChoice ts cs) :
    IsAtom (.sign '(' :: ts ++ [.sign ')']) (alternatives cs)

/-- Quantifiers apply from left to right. -/
inductive IsQuantified : List ContentToken → Content → Prop where
  | atom {ts : List ContentToken} {c : Content} (h : IsAtom ts c) : IsQuantified ts c
  | repeated {ts us : List ContentToken} {c : Content} {least : UInt64} {most : Option UInt64} (h : IsQuantified ts c)
    (hq : IsQuantifier us least most) : IsQuantified (ts ++ us) (.repeated c least most)

inductive IsSequence : List ContentToken → List Content → Prop where
  | first {ts : List ContentToken} {c : Content} (h : IsQuantified ts c) : IsSequence ts [c]
  | next {ts us : List ContentToken} {cs : List Content} {c : Content} (h : IsSequence ts cs)
    (hc : IsQuantified us c) : IsSequence (ts ++ us) (cs ++ [c])

/-- A sequence of one item stands for the item. -/
inductive IsChoice : List ContentToken → List Content → Prop where
  | first {ts : List ContentToken} {cs : List Content} (h : IsSequence ts cs) : IsChoice ts [sequence cs]
  | next {ts us : List ContentToken} {ds cs : List Content} (h : IsChoice ts ds) (hc : IsSequence us cs) :
    IsChoice (ts ++ .sign '|' :: us) (ds ++ [sequence cs])
end

/-! ### Ranges -/

theorem readNumber_eq_ok : readNumber ts = .ok (n, us) ↔ ∃ t, Numeral t n ∧ ts = t :: us := by
  cases ts with
  | nil => simp [readNumber]
  | cons t r =>
    rw [readNumber]
    cases hn : t.number? with
    | none =>
      have hno : ¬ Numeral t n := fun h => by simp [number?_eq_some_iff.2 h] at hn
      simp [hno]
    | some m => simp [← number?_eq_some_iff, hn]

theorem readRange_eq_ok : readRange ts = .ok (least, most, us) ↔ ∃ rs, IsRange rs least most ∧ ts = rs ++ us := by
  rw [readRange, bind_eq_ok]
  constructor
  · rintro ⟨⟨n, r⟩, hn, h⟩
    obtain ⟨t, ht, rfl⟩ := readNumber_eq_ok.1 hn
    dsimp only at h
    split at h
    · cases h
      exact ⟨_, .exact ht, rfl⟩
    · cases h
      exact ⟨_, .atLeast ht, rfl⟩
    · obtain ⟨⟨m, r⟩, hm, hclosed⟩ := bind_eq_ok.1 h
      obtain ⟨u, hu, rfl⟩ := readNumber_eq_ok.1 hm
      dsimp only at hclosed
      split at hclosed
      · cases hclosed
        exact ⟨_, .between ht hu, rfl⟩
      · cases hclosed
    · cases h
    · cases h
  · rintro ⟨rs, hrs, rfl⟩
    cases hrs with
    | exact ht => exact ⟨_, readNumber_eq_ok.2 ⟨_, ht, rfl⟩, rfl⟩
    | atLeast ht => exact ⟨_, readNumber_eq_ok.2 ⟨_, ht, rfl⟩, rfl⟩
    | between ht hu =>
      obtain ⟨w, rfl, -⟩ := id hu
      exact ⟨_, readNumber_eq_ok.2 ⟨_, ht, rfl⟩, bind_eq_ok.2 ⟨_, readNumber_eq_ok.2 ⟨_, hu, rfl⟩, rfl⟩⟩

/-! ### What the grammar gives is read -/

theorem readGroup_word (w : String) : readGroup outer g (.word w :: ts) = readGroup outer (g.push (.name w)) ts := by
  rw [readGroup]

theorem readGroup_open : readGroup outer g (.sign '(' :: ts) = readGroup (g :: outer) ⟨[], []⟩ ts := by
  rw [readGroup]

theorem alternative_eq (h : g.items ≠ []) : g.alternative = .ok (sequence g.items.reverse) := by
  simp [Group.alternative, h]

theorem readGroup_bar (h : g.items ≠ []) :
    readGroup outer g (.sign '|' :: ts) = readGroup outer ⟨sequence g.items.reverse :: g.done, []⟩ ts := by
  rw [readGroup, alternative_eq h]
  rfl

theorem close_eq (h : g.items ≠ []) :
    g.close = .ok (alternatives (g.done.reverse ++ [sequence g.items.reverse])) := by
  rw [Group.close, alternative_eq h]
  rfl

theorem readGroup_close {up : Group} (h : g.items ≠ []) : readGroup (up :: outer) g (.sign ')' :: ts) =
    readGroup outer (up.push (alternatives (g.done.reverse ++ [sequence g.items.reverse]))) ts := by
  rw [readGroup, close_eq h]
  rfl

theorem readGroup_brace (h : readRange us = .ok (least, most, ts)) :
    readGroup outer ⟨done, c :: items⟩ (.sign '\x7b' :: us) =
      readGroup outer ⟨done, .repeated c least most :: items⟩ ts := by
  rw [readGroup]
  · simp only []
    split
    · next heq =>
      rw [h] at heq
      cases heq
      rfl
    · next heq =>
      rw [h] at heq
      cases heq
  all_goals decide

theorem readGroup_quantifier (hq : IsQuantifier us least most) :
    readGroup outer ⟨done, c :: items⟩ (us ++ ts) = readGroup outer ⟨done, .repeated c least most :: items⟩ ts := by
  cases hq with
  | any => simp [readGroup]
  | some => simp [readGroup]
  | optional => simp [readGroup]
  | range h => exact readGroup_brace (readRange_eq_ok.2 ⟨_, h, rfl⟩)

theorem IsSequence.ne_nil (h : IsSequence ts cs) : cs ≠ [] := by cases h <;> simp

mutual
/-- Reading on over an atom puts its expression into the group. -/
theorem readGroup_atom {us ts : List ContentToken} {c : Content} {g : Group} {outer : List Group} :
    IsAtom us c → readGroup outer g (us ++ ts) = readGroup outer (g.push c) ts
  | .name w => readGroup_word w
  | .group h => by
    obtain ⟨g', hread, hne, rfl⟩ := readGroup_choice (g :: outer) (.sign ')' :: ts) h
    rw [List.append_assoc, List.cons_append, readGroup_open, List.singleton_append, hread, readGroup_close hne]

theorem readGroup_quantified {us ts : List ContentToken} {c : Content} {g : Group} {outer : List Group} :
    IsQuantified us c → readGroup outer g (us ++ ts) = readGroup outer (g.push c) ts
  | .atom h => readGroup_atom h
  | .repeated h hq => by
    rw [List.append_assoc, readGroup_quantified h]
    exact readGroup_quantifier hq

theorem readGroup_sequence {us ts : List ContentToken} {cs items done : List Content} {outer : List Group} :
    IsSequence us cs → readGroup outer ⟨done, items⟩ (us ++ ts) = readGroup outer ⟨done, cs.reverse ++ items⟩ ts
  | .first h => readGroup_quantified h
  | .next h hc => by
    rw [List.append_assoc, readGroup_sequence h, readGroup_quantified hc]
    simp [Group.push]

/-- Reading on over a choice leaves a group that it has filled. -/
theorem readGroup_choice {us : List ContentToken} {ds : List Content} (outer : List Group)
    (ts : List ContentToken) : IsChoice us ds →
    ∃ g, readGroup outer ⟨[], []⟩ (us ++ ts) = readGroup outer g ts ∧ g.items ≠ [] ∧
      g.done.reverse ++ [sequence g.items.reverse] = ds
  | .first h => ⟨_, readGroup_sequence h, by simp [h.ne_nil], by simp⟩
  | @IsChoice.next _ _ _ cs h hc => by
    obtain ⟨g, hread, hne, rfl⟩ := readGroup_choice outer (_ ++ ts) h
    refine ⟨⟨sequence g.items.reverse :: g.done, cs.reverse ++ []⟩, ?_, by simpa using hc.ne_nil, by simp⟩
    rw [List.append_assoc, hread, List.cons_append, readGroup_bar hne, readGroup_sequence hc]
end

/-! ### What is read is given by the grammar -/

/-- What has been read of a sequence, if anything; its items are the last first. -/
def Begun (us : List ContentToken) (items : List Content) : Prop :=
  us = [] ∧ items = [] ∨ IsSequence us items.reverse

theorem Begun.push (h : Begun us items) (hc : IsQuantified vs c) : Begun (us ++ vs) (c :: items) := by
  obtain ⟨rfl, rfl⟩ | h := h
  · exact .inr (.first hc)
  · exact .inr (by simpa using IsSequence.next h hc)

/-- The last item of a sequence is what is read after the others. -/
theorem IsSequence.last (h : IsSequence us (cs ++ [c])) :
    ∃ us₁ us₂, us = us₁ ++ us₂ ∧ Begun us₁ cs.reverse ∧ IsQuantified us₂ c := by
  generalize hds : cs ++ [c] = ds at h
  cases h with
  | first h =>
    obtain ⟨rfl, rfl⟩ : cs = [] ∧ c = _ := by simpa [List.append_eq_singleton_iff] using hds
    exact ⟨[], us, rfl, .inl ⟨rfl, rfl⟩, h⟩
  | next h hc =>
    obtain ⟨rfl, hlast⟩ := List.append_inj' hds rfl
    obtain rfl := List.singleton_inj.1 hlast
    exact ⟨_, _, rfl, .inr (by simpa using h), hc⟩

theorem Begun.repeated (h : Begun us (c :: items)) (hq : IsQuantifier vs least most) :
    Begun (us ++ vs) (.repeated c least most :: items) := by
  obtain ⟨-, h⟩ | h := h
  · cases h
  · obtain ⟨us₁, us₂, rfl, hbegun, hc⟩ := IsSequence.last (by simpa using h)
    rw [List.append_assoc]
    exact Begun.push (by simpa using hbegun) (.repeated hc hq)

/-- What has been read of a choice. -/
inductive Opened : List ContentToken → Group → Prop where
  | first {us : List ContentToken} {items : List Content} (h : Begun us items) : Opened us ⟨[], items⟩
  | next {ts us : List ContentToken} {done items : List Content} (hd : IsChoice ts done.reverse)
    (h : Begun us items) : Opened (ts ++ .sign '|' :: us) ⟨done, items⟩

theorem Opened.nil : Opened [] ⟨[], []⟩ := .first (.inl ⟨rfl, rfl⟩)

theorem Opened.go_on {items' : List Content} (h : Opened us ⟨done, items⟩)
    (hgo : ∀ us, Begun us items → Begun (us ++ vs) items') : Opened (us ++ vs) ⟨done, items'⟩ := by
  cases h with
  | first h => exact .first (hgo _ h)
  | next hd h =>
    rw [List.append_assoc]
    exact .next hd (hgo _ h)

theorem Opened.push (h : Opened us g) (hc : IsQuantified vs c) : Opened (us ++ vs) (g.push c) :=
  h.go_on fun _ h => h.push hc

theorem Opened.repeated (h : Opened us ⟨done, c :: items⟩) (hq : IsQuantifier vs least most) :
    Opened (us ++ vs) ⟨done, .repeated c least most :: items⟩ :=
  h.go_on fun _ h => h.repeated hq

theorem Opened.isChoice (h : Opened us g) (hne : g.items ≠ []) :
    IsChoice us (g.done.reverse ++ [sequence g.items.reverse]) := by
  cases h with
  | first h => exact .first (h.resolve_left fun h => hne h.2)
  | next hd h => exact .next hd (h.resolve_left fun h => hne h.2)

theorem Opened.bar (h : Opened us g) (hne : g.items ≠ []) :
    Opened (us ++ [.sign '|']) ⟨sequence g.items.reverse :: g.done, []⟩ :=
  .next (by simpa using h.isChoice hne) (.inl ⟨rfl, rfl⟩)

/-- What has been read of a text: of each of the groups that are open around a place. -/
inductive Nested : List ContentToken → List Group → Group → Prop where
  | outermost {us : List ContentToken} {g : Group} (h : Opened us g) : Nested us [] g
  | inside {ts us : List ContentToken} {outer : List Group} {up g : Group} (hup : Nested ts outer up)
    (h : Opened us g) : Nested (ts ++ .sign '(' :: us) (up :: outer) g

theorem Nested.go_on {g' : Group} (h : Nested us outer g) (hgo : ∀ us, Opened us g → Opened (us ++ vs) g') :
    Nested (us ++ vs) outer g' := by
  cases h with
  | outermost h => exact .outermost (hgo _ h)
  | inside hup h =>
    rw [List.append_assoc]
    exact .inside hup (hgo _ h)

theorem Nested.push (h : Nested us outer g) (hc : IsQuantified vs c) : Nested (us ++ vs) outer (g.push c) :=
  h.go_on fun _ h => h.push hc

theorem Nested.repeated (h : Nested us outer g) (hitems : g.items = c :: items) (hq : IsQuantifier vs least most) :
    Nested (us ++ vs) outer ⟨g.done, .repeated c least most :: items⟩ := by
  obtain ⟨done, _⟩ := g
  obtain rfl := hitems
  exact h.go_on fun _ h => h.repeated hq

theorem alternative_eq_ok : g.alternative = .ok c ↔ g.items ≠ [] ∧ c = sequence g.items.reverse := by
  rw [Group.alternative]
  split
  · next h => simp [List.isEmpty_iff.1 h]
  · next h =>
    have hne : g.items ≠ [] := by simpa using h
    simp [hne, eq_comm]

theorem close_eq_ok : g.close = .ok c ↔
    g.items ≠ [] ∧ c = alternatives (g.done.reverse ++ [sequence g.items.reverse]) := by
  rw [Group.close, bind_eq_ok]
  simp only [alternative_eq_ok]
  constructor
  · rintro ⟨_, ⟨hne, rfl⟩, h⟩
    cases h
    exact ⟨hne, rfl⟩
  · rintro ⟨hne, rfl⟩
    exact ⟨_, ⟨hne, rfl⟩, rfl⟩

theorem Nested.close {up : Group} (h : Nested us (up :: outer) g) (hc : g.close = .ok c) :
    Nested (us ++ [.sign ')']) outer (up.push c) := by
  obtain ⟨hne, rfl⟩ := close_eq_ok.1 hc
  cases h with
  | inside hup h =>
    rw [List.append_assoc]
    exact hup.push (.atom (.group (h.isChoice hne)))

theorem Nested.bar (h : Nested us outer g) (hc : g.alternative = .ok c) :
    Nested (us ++ [.sign '|']) outer ⟨c :: g.done, []⟩ := by
  obtain ⟨hne, rfl⟩ := alternative_eq_ok.1 hc
  exact h.go_on fun _ h => h.bar hne

theorem Nested.isChoice (h : Nested us [] g) (hc : g.close = .ok c) : ∃ ds, IsChoice us ds ∧ c = alternatives ds := by
  obtain ⟨hne, rfl⟩ := close_eq_ok.1 hc
  cases h with
  | outermost h => exact ⟨_, h.isChoice hne, rfl⟩

/-- Reading on from what has been read gives an expression of all the tokens. -/
theorem isChoice_of_readGroup (h : Nested us outer g) (hread : readGroup outer g ts = .ok e) :
    ∃ ds, IsChoice (us ++ ts) ds ∧ e = alternatives ds := by
  -- Each sign takes the stack of groups from one that fits the tokens read to one that fits one token more.
  fun_induction readGroup outer g ts generalizing us with
  | case1 outer g =>
    obtain ⟨c, hc, hend⟩ := bind_eq_ok.1 hread
    split at hend
    · next hout =>
      obtain rfl := List.isEmpty_iff.1 hout
      cases hend
      rw [List.append_nil]
      exact h.isChoice hc
    · cases hend
  | case2 outer g w r ih => simpa using ih (h.push (.atom (.name w))) hread
  | case3 outer g r ih => simpa using ih (.inside h .nil) hread
  | case4 outer g r ih =>
    obtain ⟨c, hc, hrest⟩ := bind_eq_ok.1 hread
    split at hrest
    · cases hrest
    · simpa using ih c _ _ (h.close hc) hrest
  | case5 outer g r ih =>
    obtain ⟨c, hc, hrest⟩ := bind_eq_ok.1 hread
    simpa using ih c (h.bar hc) hrest
  | case7 outer g r c items hitems _ _ _ ih => simpa using ih (h.repeated hitems .any) hread
  | case8 outer g r c items hitems _ _ _ ih => simpa using ih (h.repeated hitems .some) hread
  | case9 outer g r c items hitems _ _ _ ih => simpa using ih (h.repeated hitems .optional) hread
  | case10 outer g r c items hitems least most r' hrange _ _ _ _ ih =>
    obtain ⟨rs, hrs, rfl⟩ := readRange_eq_ok.1 hrange
    simpa using ih (h.repeated hitems (.range hrs)) hread
  | case6 => cases hread
  | case11 => cases hread
  | case12 => cases hread

theorem readGroup_eq_ok_iff :
    readGroup [] ⟨[], []⟩ ts = .ok e ↔ ∃ ds, IsChoice ts ds ∧ e = alternatives ds := by
  constructor
  · exact isChoice_of_readGroup (.outermost .nil)
  · rintro ⟨ds, h, rfl⟩
    obtain ⟨g, hread, hne, rfl⟩ := readGroup_choice [] [] h
    rw [List.append_nil] at hread
    rw [hread, readGroup, close_eq hne]
    rfl

theorem not_isChoice_nil : ¬ IsChoice [] ds := by
  intro h
  have hread := readGroup_eq_ok_iff.2 ⟨ds, h, rfl⟩
  rw [readGroup] at hread
  cases hread

/-! ### Names -/

/-- The words outside braces; `inside` says whether the first token is between braces. -/
def outerWords (inside : Bool) : List ContentToken → List String
  | [] => []
  | .word w :: ts => if inside then outerWords inside ts else w :: outerWords inside ts
  | .sign c :: ts => outerWords (if inside then c != '\x7d' else c == '\x7b') ts

@[simp] theorem outerWords_word (w : String) : outerWords false (.word w :: ts) = w :: outerWords false ts := rfl

theorem namesAll_append (cs ds : List Content) : namesAll (cs ++ ds) = namesAll cs ++ namesAll ds := by
  induction cs with
  | nil => rfl
  | cons c cs ih => simp [namesAll, ih]

@[simp] theorem namesAll_singleton (c : Content) : namesAll [c] = c.names := by simp [namesAll]

theorem names_sequence (cs : List Content) : (sequence cs).names = namesAll cs := by
  fun_cases sequence cs <;> simp [names]

theorem names_alternatives (cs : List Content) : (alternatives cs).names = namesAll cs := by
  fun_cases alternatives cs <;> simp [names]

theorem outerWords_numeral (h : Numeral t n) : outerWords true (t :: ts) = outerWords true ts := by
  obtain ⟨w, rfl, -⟩ := h
  rfl

theorem IsRange.outerWords_append (h : IsRange us least most) :
    outerWords true (us ++ ts) = outerWords false ts := by
  cases h with
  | exact ht => exact outerWords_numeral ht
  | atLeast ht => exact outerWords_numeral ht
  | between ht hu => exact (outerWords_numeral ht).trans (outerWords_numeral hu)

theorem IsQuantifier.outerWords_append (h : IsQuantifier us least most) :
    outerWords false (us ++ ts) = outerWords false ts := by
  cases h with
  | any => rfl
  | some => rfl
  | optional => rfl
  | range h => exact h.outerWords_append

mutual
theorem IsAtom.outerWords_append {us ts : List ContentToken} {c : Content} :
    IsAtom us c → outerWords false (us ++ ts) = c.names ++ outerWords false ts
  | .name w => by simp [names]
  | .group h => by
    rw [names_alternatives, List.append_assoc]
    exact h.outerWords_append

theorem IsQuantified.outerWords_append {us ts : List ContentToken} {c : Content} :
    IsQuantified us c → outerWords false (us ++ ts) = c.names ++ outerWords false ts
  | .atom h => h.outerWords_append
  | .repeated h hq => by rw [List.append_assoc, h.outerWords_append, hq.outerWords_append, names]

theorem IsSequence.outerWords_append {us ts : List ContentToken} {cs : List Content} :
    IsSequence us cs → outerWords false (us ++ ts) = namesAll cs ++ outerWords false ts
  | .first h => by rw [h.outerWords_append, namesAll_singleton]
  | .next h hc => by
    rw [List.append_assoc, h.outerWords_append, hc.outerWords_append, namesAll_append, namesAll_singleton,
      List.append_assoc]

theorem IsChoice.outerWords_append {us ts : List ContentToken} {ds : List Content} :
    IsChoice us ds → outerWords false (us ++ ts) = namesAll ds ++ outerWords false ts
  | .first h => by rw [h.outerWords_append, namesAll_singleton, names_sequence]
  | .next h hc => by
    rw [List.append_assoc, h.outerWords_append, namesAll_append, namesAll_singleton, names_sequence, List.append_assoc,
      ← hc.outerWords_append]
    rfl
end

theorem names_eq_outerWords (h : IsChoice ts ds) : (alternatives ds).names = outerWords false ts := by
  have hwords : outerWords false (ts ++ []) = namesAll ds ++ [] := h.outerWords_append
  rw [List.append_nil, List.append_nil] at hwords
  rw [names_alternatives, hwords]

/-- A text is read as the expression that the grammar gives its words and signs, and as nothing else; the names in
it are the words outside braces. This holds of whatever alphabet the words are of. -/
theorem read_eq_ok_iff (α : Text.Alphabet) (s : String) (e : Content) :
    (read s α = .ok e ↔ ∃ ts, ContentToken.Spells α s.toList ts ∧
      (ts = [] ∧ e = .seq [] ∨ ∃ ds, IsChoice ts ds ∧ e = alternatives ds)) ∧
    ∀ ts, ContentToken.Spells α s.toList ts → read s α = .ok e → e.names = outerWords false ts := by
  have hread : read s α = .ok e ↔ ∃ ts, ContentToken.Spells α s.toList ts ∧
      (ts = [] ∧ e = .seq [] ∨ ∃ ds, IsChoice ts ds ∧ e = alternatives ds) := by
    rw [read, bind_eq_ok]
    refine exists_congr fun ts => and_congr scan_eq_ok_iff ?_
    cases ts with
    | nil => simp [eq_comm, not_isChoice_nil]
    | cons t ts => simp [readGroup_eq_ok_iff]
  refine ⟨hread, fun us hus h => ?_⟩
  obtain ⟨ts, hts, hgiven⟩ := hread.1 h
  obtain rfl : ts = us := by simpa [scan_eq_ok_iff.2 hts] using scan_eq_ok_iff.2 hus
  obtain ⟨rfl, rfl⟩ | ⟨ds, hds, rfl⟩ := hgiven
  · rfl
  · exact names_eq_outerWords hds

theorem read_repeated_choice :
    ContentToken.Spells .unicode "a\x7b2\x7d (b | c)+".toList
      [.word "a", .sign '\x7b', .word "2", .sign '\x7d', .sign '(', .word "b", .sign '|', .word "c", .sign ')', .sign '+'] ∧
    read "a\x7b2\x7d (b | c)+" =
      .ok (.seq [.repeated (.name "a") 2 (some 2), .repeated (.choice [.name "b", .name "c"]) 1 none]) ∧
    (Content.seq [.repeated (.name "a") 2 (some 2), .repeated (.choice [.name "b", .name "c"]) 1 none]).names =
      ["a", "b", "c"] := by
  have hspells := scan_eq_ok_iff.1 (show scan .unicode [] "a\x7b2\x7d (b | c)+".toList = .ok
    [.word "a", .sign '\x7b', .word "2", .sign '\x7d', .sign '(', .word "b", .sign '|', .word "c", .sign ')', .sign '+']
    by simp [scan, scan.close, isWordChar, Text.Alphabet.unicode, Text.isWord, Text.isBlank, isSign, Except.map])
  have htwo : IsQuantified ([.word "a"] ++ [.sign '\x7b', .word "2", .sign '\x7d'])
      (.repeated (.name "a") 2 (some 2)) :=
    .repeated (.atom (.name "a")) (.range (.exact (number?_eq_some_iff.1 (by decide +kernel))))
  have hbc : IsChoice ([.word "b"] ++ [.sign '|', .word "c"]) ([.name "b"] ++ [.name "c"]) :=
    .next (.first (.first (.atom (.name "b")))) (.first (.atom (.name "c")))
  have hplus : IsQuantified ([.sign '(', .word "b", .sign '|', .word "c", .sign ')'] ++ [.sign '+'])
      (.repeated (.choice [.name "b", .name "c"]) 1 none) :=
    .repeated (.atom (.group hbc)) .some
  have hread := (read_eq_ok_iff .unicode "a\x7b2\x7d (b | c)+" _).1.2
    ⟨_, hspells, .inr ⟨_, .first (.next (.first htwo) hplus), rfl⟩⟩
  exact ⟨hspells, hread, (read_eq_ok_iff _ _ _).2 _ hspells hread⟩

end RichDoc.Content
