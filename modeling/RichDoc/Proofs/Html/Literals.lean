import RichDoc.Proofs.Html.TreeWide

/-!
# What literals mean

A literal in angle brackets that has no others inside means a fragment by what its body starts with (`Means`): a
comment, a CDATA section, a declaration, an instruction, or a tag, which has a name of its own grammar
(`StartsWithName`). The relation is `Fragment.classify` on all texts, which fails on those that mean nothing
(`classify_eq_none_iff`, `classify_eq_some_iff`, `classify_eq_error_iff`). Pairing tags fails exactly when a tree has
such a literal at a node that it reads, and then it names the first of them (`literals_read_by_grammar`).
-/

namespace RichDoc.Html

/-! ### The grammar -/

/-- The text is `body` in angle brackets, and has no others. -/
structure Bracketed (v : String) (body : List Char) : Prop where
  eq : v.toList = '<' :: (body ++ ['>'])
  noLeft : '<' ∉ body
  noRight : '>' ∉ body

/-- The letters, digits and hyphens at the start of `cs` are `name`, which starts with a letter, and white space, a
slash or a closing bracket follows. -/
structure StartsWithName (cs name : List Char) : Prop where
  first : ∃ c ∈ name.head?, c.isAlpha = true
  inside : ∀ c ∈ name, c.isAlpha = true ∨ c.isDigit = true ∨ c = '-'
  stop : ∃ e rest, cs = name ++ e :: rest ∧ ¬(e.isAlpha = true ∨ e.isDigit = true ∨ e = '-') ∧
    (Text.isBlank e = true ∨ e = '/' ∨ e = '>')

/-- What a body in angle brackets means. -/
inductive Means (body : List Char) : Fragment → Prop where
  | comment (h : "!--".toList <+: body) : Means body .comment
  | cdata (h : "![CDATA[".toList <+: body) : Means body .cdata
  | declaration (h : ['!'] <+: body) (noComment : ¬ "!--".toList <+: body) (noCdata : ¬ "![CDATA[".toList <+: body) :
    Means body .declaration
  | processing (h : ['?'] <+: body) : Means body .processing
  | closing {r name : List Char} (h : body = '/' :: r) (hname : StartsWithName (r ++ ['>']) name) :
    Means body (.closing (lower (String.ofList name)))
  | opening {name : List Char} (hname : StartsWithName (body ++ ['>']) name) :
    Means body (.opening (lower (String.ofList name)))

/-- The text is in angle brackets and means nothing. -/
def Malformed (v : String) : Prop := ∃ body, Bracketed v body ∧ ∀ f, ¬ Means body f

/-- The node is read and its literal is malformed. -/
def Unreadable (n : Node) : Prop := n.kind = .html ∧ n.span.isSome = true ∧ ∃ v ∈ n.value, Malformed v

/-! ### Brackets -/

variable {v : String} {cs body name : List Char} {f : Fragment}

theorem isFragment_iff : isFragment v.toList = true ↔ ∃ body, Bracketed v body := by
  simp only [isFragment, Bool.and_eq_true, beq_iff_eq]
  constructor
  · rintro ⟨⟨⟨hhead, hlast⟩, hleft⟩, hright⟩
    obtain ⟨r, hr⟩ := List.head?_eq_some_iff.1 hhead
    obtain ⟨body, rfl⟩ : ∃ body, r = body ++ ['>'] := by
      cases r using List.reverseRecOn with
      | nil => simp [hr] at hlast
      | append_singleton body c =>
        rw [hr, ← List.cons_append, List.getLast?_concat] at hlast
        exact ⟨body, by rw [Option.some.inj hlast]⟩
    rw [hr, List.count_cons_self, List.count_append] at hleft
    rw [hr, List.count_cons_of_ne (by decide), List.count_append, List.count_singleton_self] at hright
    exact ⟨body, hr, List.count_eq_zero.1 (by omega), List.count_eq_zero.1 (by omega)⟩
  · rintro ⟨body, heq, hleft, hright⟩
    have hlast : v.toList.getLast? = some '>' := by rw [heq, ← List.cons_append, List.getLast?_concat]
    refine ⟨⟨⟨by rw [heq, List.head?_cons], hlast⟩, ?_⟩, ?_⟩
    · simp [heq, List.count_eq_zero.2 hleft]
    · simp [heq, List.count_eq_zero.2 hright]

/-! ### Names -/

theorem isNameChar_iff (c : Char) : isNameChar c = true ↔ c.isAlpha = true ∨ c.isDigit = true ∨ c = '-' := by
  simp [isNameChar, Char.isAlphanum, or_assoc]

theorem endsName_iff (c : Char) : endsName c = true ↔ Text.isBlank c = true ∨ c = '/' ∨ c = '>' := by
  simp [endsName, or_assoc]

theorem startsWithName_of_nameOf? {n : String} (h : nameOf? cs = some n) :
    ∃ name, StartsWithName cs name ∧ n = lower (String.ofList name) := by
  unfold nameOf? at h
  split at h
  · next c r =>
    split at h
    · next hc =>
      rw [Bool.and_eq_true] at hc
      have hfirst : isNameChar c = true := (isNameChar_iff c).2 (.inl hc.1)
      refine ⟨(c :: r).takeWhile isNameChar, ⟨?_, fun d hd => ?_, ?_⟩, ?_⟩
      · exact ⟨c, by simp [hfirst], hc.1⟩
      · exact (isNameChar_iff d).1 (List.all_eq_true.1 List.all_takeWhile d hd)
      · obtain ⟨e, he, hends⟩ := (Option.any_eq_true _ _).1 hc.2
        obtain ⟨rest, hrest⟩ := List.head?_eq_some_iff.1 he
        refine ⟨e, rest, by rw [← hrest, List.takeWhile_append_dropWhile], ?_, (endsName_iff e).1 hends⟩
        have hnot := List.head?_dropWhile_not isNameChar (c :: r)
        rw [he] at hnot
        rw [← isNameChar_iff]
        simpa using hnot
      · simp [← Option.some.inj h, lower]
    · cases h
  · cases h

theorem StartsWithName.nameOf?_eq (h : StartsWithName cs name) : nameOf? cs = some (lower (String.ofList name)) := by
  obtain ⟨⟨c, hc, hfirst⟩, hinside, e, rest, rfl, hstop, hends⟩ := h
  have hall : ∀ d ∈ name, isNameChar d = true := fun d hd => (isNameChar_iff d).2 (hinside d hd)
  have he : ¬ isNameChar e = true := by rwa [isNameChar_iff]
  have htake : (name ++ e :: rest).takeWhile isNameChar = name := by
    rw [List.takeWhile_append_of_pos hall, List.takeWhile_cons_of_neg he, List.append_nil]
  have hdrop : (name ++ e :: rest).dropWhile isNameChar = e :: rest := by
    rw [List.dropWhile_append_of_pos hall, List.dropWhile_cons_of_neg he]
  obtain ⟨r, rfl⟩ := List.head?_eq_some_iff.1 hc
  rw [List.cons_append] at htake hdrop ⊢
  have hname : isNameStart c = true := hfirst
  have hend : endsName e = true := (endsName_iff e).2 hends
  simp [nameOf?, htake, hdrop, hname, hend, lower]

/-! ### Bodies -/

/-- What is looked for in the text up to its closing bracket is found in the body. -/
theorem isPrefixOf_concat_iff {p : List Char} (hp : '>' ∉ p) : p.isPrefixOf (body ++ ['>']) = true ↔ p <+: body := by
  rw [List.isPrefixOf_iff_prefix, List.prefix_concat_iff]
  refine or_iff_right fun h => hp ?_
  rw [h]
  simp

theorem head?_of_starts {p : List Char} {c : Char} (h : p <+: body) (hc : p.head? = some c) : body.head? = some c := by
  obtain ⟨r, rfl⟩ := h
  rw [List.head?_append, hc]
  rfl

theorem ofBody?_concat (body : List Char) :
    Fragment.ofBody? (body ++ ['>']) =
      if "!--".toList <+: body then some .comment
      else if "![CDATA[".toList <+: body then some .cdata
      else if ['!'] <+: body then some .declaration
      else if ['?'] <+: body then some .processing
      else match body ++ ['>'] with
        | '/' :: r => (nameOf? r).map .closing
        | r => (nameOf? r).map .opening := by
  unfold Fragment.ofBody?
  simp only [isPrefixOf_concat_iff (p := "!--".toList) (by decide),
    isPrefixOf_concat_iff (p := "![CDATA[".toList) (by decide), isPrefixOf_concat_iff (p := "!".toList) (by decide),
    isPrefixOf_concat_iff (p := "?".toList) (by decide)]
  rfl

theorem means_of_ofBody? (h : Fragment.ofBody? (body ++ ['>']) = some f) : Means body f := by
  rw [ofBody?_concat] at h
  split at h
  · next hc => exact Option.some.inj h ▸ .comment hc
  split at h
  · next hc => exact Option.some.inj h ▸ .cdata hc
  split at h
  · next hno hno' hc => exact Option.some.inj h ▸ .declaration hc hno hno'
  split at h
  · next hc => exact Option.some.inj h ▸ .processing hc
  split at h
  · next r hr =>
    obtain ⟨n, hn, rfl⟩ := Option.map_eq_some_iff.1 h
    obtain ⟨name, hname, rfl⟩ := startsWithName_of_nameOf? hn
    cases body with
    | nil => cases hr
    | cons c body =>
      obtain ⟨rfl, rfl⟩ := List.cons.inj hr
      exact .closing rfl hname
  · next r hr =>
    obtain ⟨n, hn, rfl⟩ := Option.map_eq_some_iff.1 h
    obtain ⟨name, hname, rfl⟩ := startsWithName_of_nameOf? hn
    exact .opening hname

/-- A body with neither mark in front is a tag or nothing. -/
theorem ofBody?_of_head (h : body.head? ≠ some '!') (h' : body.head? ≠ some '?') :
    Fragment.ofBody? (body ++ ['>']) = match body ++ ['>'] with
      | '/' :: r => (nameOf? r).map .closing
      | r => (nameOf? r).map .opening := by
  rw [ofBody?_concat, if_neg fun hp => h (head?_of_starts hp rfl), if_neg fun hp => h (head?_of_starts hp rfl),
    if_neg fun hp => h (head?_of_starts hp rfl), if_neg fun hp => h' (head?_of_starts hp rfl)]

theorem StartsWithName.exists_head (h : StartsWithName (body ++ ['>']) name) : ∃ c ∈ body.head?, c.isAlpha = true := by
  obtain ⟨⟨c, hc, halpha⟩, -, e, rest, heq, -⟩ := h
  refine ⟨c, ?_, halpha⟩
  obtain ⟨r, rfl⟩ := List.head?_eq_some_iff.1 hc
  cases body with
  | nil => cases r <;> cases heq
  | cons d body => exact congrArg some (List.cons.inj heq).1

theorem Means.ofBody?_eq (h : Means body f) : Fragment.ofBody? (body ++ ['>']) = some f := by
  cases h with
  | comment h => rw [ofBody?_concat, if_pos h]
  | cdata h =>
    have hno : ¬ "!--".toList <+: body := fun h' =>
      absurd (List.prefix_or_prefix_of_prefix h h') (by decide)
    rw [ofBody?_concat, if_neg hno, if_pos h]
  | declaration h hno hno' => rw [ofBody?_concat, if_neg hno, if_neg hno', if_pos h]
  | processing h =>
    have hne : body.head? ≠ some '!' := by
      rw [head?_of_starts h rfl]
      decide
    rw [ofBody?_concat, if_neg fun hp => hne (head?_of_starts hp rfl), if_neg fun hp => hne (head?_of_starts hp rfl),
      if_neg fun hp => hne (head?_of_starts hp rfl), if_pos h]
  | @closing r name h hname =>
    subst h
    rw [ofBody?_of_head (by simp) (by simp)]
    show (nameOf? (r ++ ['>'])).map _ = _
    rw [hname.nameOf?_eq]
    rfl
  | opening hname =>
    obtain ⟨c, hc, halpha⟩ := hname.exists_head
    have hne {d : Char} (hd : d.isAlpha = false) : c ≠ d := by
      rintro rfl
      rw [hd] at halpha
      cases halpha
    obtain ⟨r, rfl⟩ := List.head?_eq_some_iff.1 hc
    rw [ofBody?_of_head (by simpa using hne rfl) (by simpa using hne rfl)]
    split
    · next heq => exact absurd (List.cons.inj heq).1 (hne rfl)
    · rw [hname.nameOf?_eq]
      rfl

/-! ### Literals -/

theorem classify_of_not_bracketed (h : ¬ ∃ body, Bracketed v body) : Fragment.classify v = .ok none := by
  rw [Fragment.classify, if_neg fun hv => h (isFragment_iff.1 hv)]

theorem Bracketed.classify_eq (h : Bracketed v body) :
    Fragment.classify v = (Fragment.ofBody? (body ++ ['>'])).elim (.error ⟨v, none⟩) fun f => .ok (some f) := by
  have hbody : v.toList.drop 1 = body ++ ['>'] := by rw [h.eq, List.drop_one, List.tail_cons]
  unfold Fragment.classify
  rw [if_pos (isFragment_iff.2 ⟨body, h⟩), hbody]
  cases Fragment.ofBody? (body ++ ['>']) <;> rfl

theorem Means.classify_eq (hf : Means body f) (h : Bracketed v body) : Fragment.classify v = .ok (some f) := by
  rw [h.classify_eq, hf.ofBody?_eq, Option.elim_some]

theorem classify_of_malformed (h : Malformed v) : Fragment.classify v = .error ⟨v, none⟩ := by
  obtain ⟨body, hbody, hnone⟩ := h
  rw [hbody.classify_eq]
  cases hf : Fragment.ofBody? (body ++ ['>']) with
  | none => rfl
  | some f => exact absurd (means_of_ofBody? hf) (hnone f)

/-- A text is in no brackets, means a fragment, or is malformed. -/
theorem literal_cases (v : String) :
    (¬ ∃ body, Bracketed v body) ∨ (∃ f body, Bracketed v body ∧ Means body f) ∨ Malformed v := by
  by_cases h : ∃ body, Bracketed v body
  · obtain ⟨body, hbody⟩ := h
    by_cases hf : ∃ f, Means body f
    · obtain ⟨f, hf⟩ := hf
      exact .inr (.inl ⟨f, body, hbody, hf⟩)
    · exact .inr (.inr ⟨body, hbody, fun f h => hf ⟨f, h⟩⟩)
  · exact .inl h

/-- What is in no brackets is left alone. -/
theorem classify_eq_none_iff (v : String) : Fragment.classify v = .ok none ↔ ¬ ∃ body, Bracketed v body := by
  refine ⟨fun h => ?_, classify_of_not_bracketed⟩
  rcases literal_cases v with hno | ⟨f, body, hbody, hf⟩ | hbad
  · exact hno
  · cases h.symm.trans (hf.classify_eq hbody)
  · cases h.symm.trans (classify_of_malformed hbad)

theorem classify_eq_some_iff (v : String) (f : Fragment) :
    Fragment.classify v = .ok (some f) ↔ ∃ body, Bracketed v body ∧ Means body f := by
  refine ⟨fun h => ?_, fun ⟨body, hbody, hf⟩ => hf.classify_eq hbody⟩
  rcases literal_cases v with hno | ⟨g, body, hbody, hg⟩ | hbad
  · cases h.symm.trans (classify_of_not_bracketed hno)
  · cases h.symm.trans (hg.classify_eq hbody)
    exact ⟨body, hbody, hg⟩
  · cases h.symm.trans (classify_of_malformed hbad)

theorem classify_eq_error_iff (v : String) (e : MalformedFragment) :
    Fragment.classify v = .error e ↔ e = ⟨v, none⟩ ∧ Malformed v := by
  refine ⟨fun h => ?_, fun ⟨he, hbad⟩ => he ▸ classify_of_malformed hbad⟩
  rcases literal_cases v with hno | ⟨f, body, hbody, hf⟩ | hbad
  · cases h.symm.trans (classify_of_not_bracketed hno)
  · cases h.symm.trans (hf.classify_eq hbody)
  · cases h.symm.trans (classify_of_malformed hbad)
    exact ⟨rfl, hbad⟩

/-! ### The first malformed literal -/

theorem mapM_eq_error_iff {α β ε : Type} {g : α → Except ε β} {l : List α} {e : ε} :
    l.mapM g = .error e ↔
      ∃ before x after, l = before ++ x :: after ∧ (∀ y ∈ before, ∃ b, g y = .ok b) ∧ g x = .error e := by
  induction l with
  | nil => simp [pure, Except.pure]
  | cons a r ih =>
    rw [List.mapM_cons]
    cases ha : g a with
    | error e' =>
      constructor
      · intro h
        cases h
        exact ⟨[], a, r, rfl, by simp, ha⟩
      · rintro ⟨before, x, after, heq, hok, hx⟩
        cases before with
        | nil =>
          obtain ⟨rfl, rfl⟩ := List.cons.inj heq
          cases ha.symm.trans hx
          rfl
        | cons y before =>
          obtain ⟨rfl, rfl⟩ := List.cons.inj heq
          obtain ⟨b, hb⟩ := hok a (by simp)
          cases ha.symm.trans hb
    | ok b =>
      have hrest : (do let b ← Except.ok b; let bs ← r.mapM g; pure (b :: bs) : Except ε (List β)) = .error e ↔
          r.mapM g = .error e := by
        cases r.mapM g <;> simp [bind, Except.bind, pure, Except.pure]
      rw [hrest, ih]
      constructor
      · rintro ⟨before, x, after, rfl, hok, hx⟩
        exact ⟨a :: before, x, after, rfl, List.forall_mem_cons.2 ⟨⟨b, ha⟩, hok⟩, hx⟩
      · rintro ⟨before, x, after, heq, hok, hx⟩
        cases before with
        | nil =>
          obtain ⟨rfl, rfl⟩ := List.cons.inj heq
          cases ha.symm.trans hx
        | cons y before =>
          obtain ⟨rfl, rfl⟩ := List.cons.inj heq
          exact ⟨before, x, after, rfl, (List.forall_mem_cons.1 hok).2, hx⟩

theorem fragmentOf_eq_error_iff {n : Node} {e : MalformedFragment} :
    fragmentOf n = .error e ↔ Unreadable n ∧ n.value = some e.value ∧ n.span = e.span := by
  unfold fragmentOf
  split
  · next p v hkind hspan hvalue =>
    by_cases hbad : Malformed v
    · have hread : Unreadable n := ⟨hkind, by rw [hspan]; rfl, v, hvalue, hbad⟩
      obtain ⟨w, q⟩ := e
      simp [classify_of_malformed hbad, hread, hspan, hvalue]
    · have hread : ¬ Unreadable n := by
        rintro ⟨-, -, w, hw, hwbad⟩
        exact hbad (Option.some.inj (hvalue.symm.trans hw) ▸ hwbad)
      cases hc : Fragment.classify v with
      | ok f => simp [hread]
      | error e' => exact absurd ((classify_eq_error_iff v e').1 hc).2 hbad
  · next hno =>
    have hread : ¬ Unreadable n := by
      rintro ⟨hkind, hspan, v, hvalue, -⟩
      obtain ⟨p, hp⟩ := Option.isSome_iff_exists.1 hspan
      exact hno p v hkind hp hvalue
    simp [hread]

theorem exists_fragmentOf_iff {n : Node} : (∃ f, fragmentOf n = .ok f) ↔ ¬ Unreadable n := by
  constructor
  · rintro ⟨f, hf⟩ hread
    obtain ⟨-, hspan, v, hv, -⟩ := id hread
    have herror : fragmentOf n = .error ⟨v, n.span⟩ := fragmentOf_eq_error_iff.2 ⟨hread, hv, rfl⟩
    cases hf.symm.trans herror
  · intro hread
    cases hf : fragmentOf n with
    | ok f => exact ⟨f, rfl⟩
    | error e => exact absurd (fragmentOf_eq_error_iff.1 hf).1 hread

theorem reconcile_eq_error_iff_mapM {o : Options} {n : Node} {e : MalformedFragment} :
    reconcile o n = .error e ↔ n.nodes.mapM fragmentOf = .error e := by
  simp only [reconcile, collect_slots, fragments]
  cases n.nodes.mapM fragmentOf <;> simp [bind, Except.bind, pure, Except.pure]

/-- Every text is left alone, means a fragment or is malformed, as the grammar says. Pairing the tags of a tree fails
just if one of its nodes is unreadable, with the text and the span of the first that is. -/
theorem literals_read_by_grammar :
    (∀ v, (Fragment.classify v = .ok none ↔ ¬ ∃ body, Bracketed v body) ∧
      (∀ f, Fragment.classify v = .ok (some f) ↔ ∃ body, Bracketed v body ∧ Means body f) ∧
      ∀ e, Fragment.classify v = .error e ↔ e = ⟨v, none⟩ ∧ Malformed v) ∧
    ∀ o n, ((∃ e, reconcile o n = .error e) ↔ ∃ x ∈ n.nodes, Unreadable x) ∧
      ∀ e, reconcile o n = .error e ↔ ∃ before x after, n.nodes = before ++ x :: after ∧
        (∀ y ∈ before, ¬ Unreadable y) ∧ Unreadable x ∧ x.value = some e.value ∧ x.span = e.span := by
  refine ⟨fun v => ⟨classify_eq_none_iff v, classify_eq_some_iff v, classify_eq_error_iff v⟩, fun o n => ?_⟩
  have hfirst (e : MalformedFragment) : reconcile o n = .error e ↔ ∃ before x after, n.nodes = before ++ x :: after ∧
      (∀ y ∈ before, ¬ Unreadable y) ∧ Unreadable x ∧ x.value = some e.value ∧ x.span = e.span := by
    rw [reconcile_eq_error_iff_mapM, mapM_eq_error_iff]
    simp only [exists_fragmentOf_iff, fragmentOf_eq_error_iff]
  refine ⟨⟨?_, ?_⟩, hfirst⟩
  · rintro ⟨e, he⟩
    obtain ⟨before, x, after, heq, -, hx, -⟩ := (hfirst e).1 he
    exact ⟨x, by simp [heq], hx⟩
  · rintro ⟨x, hx, hread⟩
    classical
    have hsome : (n.nodes.find? fun y => decide (Unreadable y)).isSome = true :=
      List.find?_isSome.2 ⟨x, hx, decide_eq_true hread⟩
    obtain ⟨y, hy⟩ := Option.isSome_iff_exists.1 hsome
    obtain ⟨hyread, before, after, heq, hbefore⟩ := List.find?_eq_some_iff_append.1 hy
    have hyread := of_decide_eq_true hyread
    obtain ⟨-, -, v, hv, -⟩ := id hyread
    refine ⟨⟨v, y.span⟩, (hfirst _).2 ⟨before, y, after, heq, fun z hz => ?_, hyread, hv, rfl⟩⟩
    simpa using hbefore z hz

end RichDoc.Html
