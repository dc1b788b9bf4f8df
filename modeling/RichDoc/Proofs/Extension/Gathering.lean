import RichDoc.Proofs.Extension.Members
import RichDoc.Proofs.Grammar.Build

/-!
# What a composer gathers

`Composer.Gathered c es`: the composer `c` has registered the extensions `es`, in this order, and all that it has
gathered is theirs. Another extension is registered exactly when it goes with those, and is then gathered with them
(`Gathered.exists_register_iff`, `Gathered.register`). A walk registers what it meets one by one, so how it ends hangs
on the circle that it meets, if there is one, and on whether all that it meets goes together (`Gathered.visit`).
-/

namespace RichDoc

namespace Composition
variable {es : List Extension} {e : Extension} {g : Grammar}

/-- The type that stands for the root. -/
def topOf (es : List Extension) : Option String := (es.find? (·.kind == some .root)).bind (·.type)

/-- The grammar of a list of extensions. -/
def grammarOf (es : List Extension) : Except CompositionError Grammar :=
  Grammar.build (es.filterMap (·.node?)) (es.filterMap (·.mark?)) (topOf es)

/-- The extensions under what `key` gives. -/
def tableOf {κ : Type} (key : Extension → Option κ) (es : List Extension) : Converters κ :=
  es.filterMap fun e => (key e).map (·, e)

/-- The first pair of each key. -/
def firstOfEach {α : Type} : List (String × α) → List (String × α)
  | [] => []
  | e :: r => e :: (firstOfEach r).filter (·.1 != e.1)

/-- What a list of extensions with this grammar comes to. -/
def of (es : List Extension) (g : Grammar) : Composition where
  grammar := g
  byKind := tableOf (·.kind) es
  byType := tableOf (·.type) es
  bindings := ⟨firstOfEach (es.flatMap (·.keys)), es.flatMap (·.rules)⟩
  transforms := es.flatMap (·.transforms)
  extensions := es

theorem grammarOf_eq_ok : grammarOf es = .ok g ↔
    (∀ d ∈ es.filterMap (·.node?), Grammar.Readable (Grammar.namesOf (es.filterMap (·.node?))) d.2.content) ∧
      g = ⟨(es.filterMap (·.node?)).map Grammar.typeOf, Grammar.markTypes 0 (es.filterMap (·.mark?)), topOf es⟩ :=
  Grammar.build_eq_ok

/-! ### Tables -/

section Tables
variable {κ : Type} [BEq κ] [LawfulBEq κ] {key : Extension → Option κ}

theorem lookup_tableOf (key : Extension → Option κ) (es : List Extension) (k : κ) :
    (tableOf key es).lookup k = es.find? (key · == some k) := by
  induction es with
  | nil => rfl
  | cons e r ih =>
    rw [tableOf] at ih
    cases hkey : key e with
    | none => simp [tableOf, hkey, ih]
    | some l =>
      by_cases hkl : l = k
      · simp [tableOf, hkey, hkl]
      · have hlk : (k == l) = false := by simpa using Ne.symm hkl
        simp [tableOf, hkey, hkl, List.lookup_cons, hlk, ih]

theorem ofKind?_of (es : List Extension) (g : Grammar) (k : Kind) :
    (of es g).ofKind? k = es.find? (·.kind == some k) :=
  lookup_tableOf _ es k

theorem ofType?_of (es : List Extension) (g : Grammar) (t : String) :
    (of es g).ofType? t = es.find? (·.type == some t) :=
  lookup_tableOf _ es t

/-- What has no key in common with those in the table goes behind them. -/
theorem tableOf_concat (h : ∀ a ∈ es, ∀ k ∈ key a, k ∉ key e) :
    (key e).elim (tableOf key es) ((tableOf key es).put · e) = tableOf key (es ++ [e]) := by
  cases hkey : key e with
  | none => simp [tableOf, hkey]
  | some k =>
    have hnew : (tableOf key es).filter (·.1 != k) = tableOf key es := by
      refine List.filter_eq_self.2 fun p hp => ?_
      obtain ⟨a, ha, hap⟩ := List.mem_filterMap.1 hp
      obtain ⟨l, hl, rfl⟩ := Option.map_eq_some_iff.1 hap
      have hlk : l ≠ k := fun hlk => h a ha l hl (hlk ▸ hkey)
      simpa using hlk
    rw [Option.elim_some, Converters.put, hnew]
    simp [tableOf, hkey]

end Tables

theorem topOf_concat (h : ∀ a ∈ es, a.Apart e) :
    topOf (es ++ [e]) = if e.kind = some .root then e.type else topOf es := by
  rw [topOf, topOf, List.find?_append]
  by_cases hroot : e.kind = some .root
  · have hnone : es.find? (·.kind == some .root) = none :=
      Extension.find?_eq_none_iff.2 fun a ha hk => (h a ha).kind _ hk hroot
    simp [hnone, hroot]
  · simp [hroot]

/-! ### Keys -/

theorem map_fst_firstOfEach {α : Type} (es : List (String × α)) :
    (firstOfEach es).map Prod.fst = (es.map Prod.fst).eraseDups := by
  induction es with
  | nil => rfl
  | cons e r ih =>
    rw [firstOfEach, List.map_cons, List.map_cons, eraseDups_cons_eq_filter, ← ih, List.filter_map]
    rfl

theorem lookup_filter_ne {α : Type} {k l : String} (h : k ≠ l) (es : List (String × α)) :
    (es.filter (·.1 != l)).lookup k = es.lookup k := by
  induction es with
  | nil => rfl
  | cons e r ih =>
    obtain ⟨m, a⟩ := e
    by_cases hm : m = l
    · have hkm : (k == m) = false := by simpa [hm] using h
      simp [List.lookup_cons, hm, hm ▸ hkm, ih]
    · simp [List.lookup_cons, hm, ih]

theorem lookup_firstOfEach {α : Type} (es : List (String × α)) (k : String) :
    (firstOfEach es).lookup k = es.lookup k := by
  induction es with
  | nil => rfl
  | cons e r ih =>
    obtain ⟨l, a⟩ := e
    by_cases hk : k = l
    · simp [firstOfEach, hk]
    · rw [firstOfEach, List.lookup_cons, List.lookup_cons, lookup_filter_ne hk, ih]

/-- Of two pairs of one key the later one goes. -/
theorem firstOfEach_concat {α : Type} (es : List (String × α)) (e : String × α) :
    firstOfEach (es ++ [e]) =
      if ((firstOfEach es).lookup e.1).isSome then firstOfEach es else firstOfEach es ++ [e] := by
  rw [lookup_firstOfEach]
  induction es with
  | nil => rfl
  | cons a r ih =>
    obtain ⟨l, x⟩ := a
    rw [List.cons_append, firstOfEach, firstOfEach, ih, List.lookup_cons]
    by_cases hl : e.1 = l
    · simp only [hl, beq_self_eq_true, Option.isSome_some, if_true]
      split <;> simp [hl]
    · have hne : (e.1 == l) = false := by simpa using hl
      simp only [hne]
      split <;> simp [hl]

theorem keymap_bindAll {b : Bindings} {ks : List (String × Command)} (h : b.keymap = firstOfEach ks)
    (ls : List (String × Command)) :
    (b.bindAll ls).keymap = firstOfEach (ks ++ ls) ∧ (b.bindAll ls).rules = b.rules := by
  induction ls generalizing b ks with
  | nil => exact ⟨by rw [Bindings.bindAll, h, List.append_nil], rfl⟩
  | cons l r ih =>
    have hbind : (b.bind l.1 l.2).2.keymap = firstOfEach (ks ++ [l]) ∧ (b.bind l.1 l.2).2.rules = b.rules := by
      rw [firstOfEach_concat, ← h, Bindings.bind, Bindings.command?]
      split <;> exact ⟨rfl, rfl⟩
    obtain ⟨hkeys, hrules⟩ := ih hbind.1
    rw [Bindings.bindAll, hkeys, hrules, hbind.2, List.append_assoc]
    exact ⟨rfl, rfl⟩

end Composition

/-! ### One extension -/

namespace Composer
open RichDoc.Composition
variable {c c' : Composer} {es : List Extension} {e : Extension} {lib : Library} {todo : List Visit}
  {names : List String}

/-- What a composer has after it has registered the extensions `es`, and these do not clash. -/
structure Gathered (c : Composer) (es : List Extension) : Prop where
  order : c.order = es
  nodes : c.grammar.nodes = es.filterMap (·.node?)
  marks : c.grammar.marks = es.filterMap (·.mark?)
  top : c.grammar.top = topOf es
  byKind : c.byKind = tableOf (·.kind) es
  byType : c.byType = tableOf (·.type) es
  keymap : c.bindings.keymap = firstOfEach (es.flatMap (·.keys))
  rules : c.bindings.rules = es.flatMap (·.rules)
  transforms : c.transforms = es.flatMap (·.transforms)

theorem gathered_nil : Gathered {} [] := ⟨rfl, rfl, rfl, rfl, rfl, rfl, rfl, rfl, rfl⟩

theorem check_eq_ok : c.check e = .ok () ↔ e.type.isSome = e.fragment.isSome ∧
    (∀ t ∈ e.type, c.byType.lookup t = none) ∧ ∀ k ∈ e.kind, c.byKind.lookup k = none := by
  simp only [check, bind, Except.bind, throw, throwThe, MonadExceptOf.throw, pure, Except.pure]
  by_cases htyped : e.type.isSome = e.fragment.isSome
  · simp only [htyped, bne_self_eq_false, Bool.false_eq_true, if_false, true_and, Option.mem_def]
    cases e.type with
    | none =>
      cases e.kind with
      | none => simp
      | some k => cases hk : c.byKind.lookup k <;> simp [hk, -List.lookup_eq_none_iff]
    | some t =>
      cases ht : c.byType.lookup t with
      | some a => simp [ht, -List.lookup_eq_none_iff]
      | none =>
        cases e.kind with
        | none => simp [ht, -List.lookup_eq_none_iff]
        | some k => cases hk : c.byKind.lookup k <;> simp [hk, ht, -List.lookup_eq_none_iff]
  · simp [htyped]

/-- An extension passes if it is typed and has no type and no kind in common with those that have been registered. -/
theorem Gathered.check_eq_ok (h : c.Gathered es) :
    c.check e = .ok () ↔ e.type.isSome = e.fragment.isSome ∧ ∀ a ∈ es, a.Apart e := by
  rw [Composer.check_eq_ok, h.byType, h.byKind]
  simp only [lookup_tableOf, Extension.find?_eq_none_iff]
  constructor
  · rintro ⟨htyped, htype, hkind⟩
    exact ⟨htyped, fun a ha => ⟨fun t hta hte => htype t hte a ha hta, fun k hka hke => hkind k hke a ha hka⟩⟩
  · rintro ⟨htyped, hapart⟩
    exact ⟨htyped, fun t hte a ha hta => (hapart a ha).type t hta hte,
      fun k hke a ha hka => (hapart a ha).kind k hka hke⟩

theorem claimTop_eq_ok {d d' : Declarations} (htyped : e.type.isSome = e.fragment.isSome) :
    d.claimTop e = .ok d' ↔ e.Whole ∧ d' = { d with top := if e.kind = some .root then e.type else d.top } := by
  rw [Extension.whole_iff]
  by_cases hroot : e.kind = some .root
  · rw [Declarations.claimTop, if_pos hroot, if_pos hroot]
    split
    · next t spec ht hf =>
      have hnode : e.node? = some (t, spec) := Extension.node?_eq_some.2 ⟨ht, hf⟩
      simp [← htyped, hnode, ht, Declarations.setTop, eq_comm (a := d')]
    · next hnone =>
      have hnode : e.node? = none := Option.eq_none_iff_forall_ne_some.2 fun p hp =>
        hnone p.1 p.2 (Extension.node?_eq_some.1 hp).1 (Extension.node?_eq_some.1 hp).2
      simp [hroot, hnode]
  · simp [Declarations.claimTop, hroot, htyped, eq_comm (a := d')]

theorem declare_eq (d : Declarations) (e : Extension) : d.declare e =
    { d with nodes := d.nodes ++ e.node?.toList, marks := d.marks ++ e.mark?.toList } := by
  unfold Declarations.declare Extension.node? Extension.mark?
  cases e.type <;> rcases e.fragment with _ | ⟨_ | _⟩ <;> simp [Declarations.addNode, Declarations.addMark]

/-- To register an extension with those that have been registered, it has to be whole and apart from each of them. -/
theorem Gathered.exists_register_iff (h : c.Gathered es) :
    (∃ c', c.register e = .ok c') ↔ e.Whole ∧ ∀ a ∈ es, a.Apart e := by
  simp only [Composer.register, bind_eq_ok, h.check_eq_ok]
  constructor
  · rintro ⟨c', ⟨⟩, ⟨htyped, hapart⟩, d, hd, -⟩
    exact ⟨((claimTop_eq_ok htyped).1 hd).1, hapart⟩
  · rintro ⟨hwhole, hapart⟩
    have htyped := (Extension.whole_iff.1 hwhole).1
    exact ⟨_, (), ⟨htyped, hapart⟩, _, (claimTop_eq_ok htyped).2 ⟨hwhole, rfl⟩, rfl⟩

/-- What has been registered is gathered with what was gathered before. -/
theorem Gathered.register (h : c.Gathered es) (hr : c.register e = .ok c') : c'.Gathered (es ++ [e]) := by
  obtain ⟨-, hapart⟩ := h.exists_register_iff.1 ⟨c', hr⟩
  simp only [Composer.register, bind_eq_ok, h.check_eq_ok] at hr
  obtain ⟨⟨⟩, ⟨htyped, -⟩, d, hd, hr⟩ := hr
  obtain ⟨-, rfl⟩ := (claimTop_eq_ok htyped).1 hd
  obtain rfl := Except.ok.inj hr
  obtain ⟨hkeys, hrules⟩ := keymap_bindAll h.keymap e.keys
  exact {
    order := by rw [h.order]
    nodes := by
      rw [declare_eq, List.filterMap_append, ← h.nodes]
      cases hn : e.node? <;> simp [hn]
    marks := by
      rw [declare_eq, List.filterMap_append, ← h.marks]
      cases hm : e.mark? <;> simp [hm]
    top := by rw [declare_eq, topOf_concat hapart, h.top]
    byKind := by rw [← tableOf_concat fun a ha => (hapart a ha).kind, ← h.byKind]
    byType := by rw [← tableOf_concat fun a ha => (hapart a ha).type, ← h.byType]
    keymap := by simp [hkeys]
    rules := by simp [hrules, h.rules]
    transforms := by simp [h.transforms] }

theorem check_ne_dependencyCycle : c.check e ≠ .error (.dependencyCycle names) := by
  intro h
  simp only [check, bind, Except.bind, throw, throwThe, MonadExceptOf.throw, pure, Except.pure] at h
  -- where a check fails it says which, and none says that there is a circle
  repeat' split at h
  all_goals cases h

theorem claimTop_ne_dependencyCycle {d : Declarations} : d.claimTop e ≠ .error (.dependencyCycle names) := by
  fun_cases Declarations.claimTop d e <;> simp

theorem register_ne_dependencyCycle : c.register e ≠ .error (.dependencyCycle names) := by
  rw [register, Ne, bind_eq_error]
  rintro (h | ⟨_, -, h⟩)
  · exact check_ne_dependencyCycle h
  · rcases bind_eq_error.1 h with h | ⟨_, -, h⟩
    · exact claimTop_ne_dependencyCycle h
    · cases h

theorem Gathered.congr (h : c.Gathered es) (path visited : List Nat) :
    Gathered { c with path := path, visited := visited } es :=
  ⟨h.order, h.nodes, h.marks, h.top, h.byKind, h.byType, h.keymap, h.rules, h.transforms⟩

theorem Gathered.finish_eq (h : c.Gathered es) : c.finish = (grammarOf es).map (of es) := by
  have hbuild : c.grammar.build = grammarOf es := by
    rw [Declarations.build, h.nodes, h.marks, h.top, grammarOf]
  have hbindings : c.bindings = ⟨firstOfEach (es.flatMap (·.keys)), es.flatMap (·.rules)⟩ := by
    rw [← h.keymap, ← h.rules]
  rw [finish, hbuild, h.byKind, h.byType, hbindings, h.transforms, h.order]
  rfl

/-! ### A walk -/

/-- The extensions of `new` go with those of `es` and with one another. -/
structure Join (es new : List Extension) : Prop where
  whole : ∀ e ∈ new, e.Whole
  apart : ∀ a ∈ es, ∀ e ∈ new, a.Apart e
  pairwise : new.Pairwise Extension.Apart

theorem join_nil (es : List Extension) : Join es [] := ⟨by simp, by simp, .nil⟩

/-- Extensions go with others if each goes with those before it. -/
theorem join_cons {new : List Extension} :
    Join es (e :: new) ↔ (e.Whole ∧ ∀ a ∈ es, a.Apart e) ∧ Join (es ++ [e]) new := by
  constructor
  · rintro ⟨hwhole, hapart, hpair⟩
    obtain ⟨he, hwhole⟩ := List.forall_mem_cons.1 hwhole
    obtain ⟨her, hpair⟩ := List.pairwise_cons.1 hpair
    refine ⟨⟨he, fun a ha => hapart a ha e List.mem_cons_self⟩, hwhole, fun a ha b hb => ?_, hpair⟩
    rcases List.mem_append.1 ha with ha | ha
    · exact hapart a ha b (List.mem_cons_of_mem _ hb)
    · obtain rfl := List.mem_singleton.1 ha
      exact her b hb
  · rintro ⟨⟨he, hapart⟩, hwhole, hrest, hpair⟩
    refine ⟨List.forall_mem_cons.2 ⟨he, hwhole⟩, fun a ha => ?_, List.pairwise_cons.2 ⟨fun b hb => ?_, hpair⟩⟩
    · exact List.forall_mem_cons.2 ⟨hapart a ha, fun b hb => hrest a (List.mem_append_left _ ha) b hb⟩
    · exact hrest e (List.mem_append_right _ (List.mem_singleton_self e)) b hb

/-- How a walk ends that meets the extensions `new` after those of `es`, and then perhaps a circle. -/
def Ends (lib : Library) (es new : List Extension) (circle : Option (List Nat)) :
    Except CompositionError Composer → Prop
  | .ok c => Join es new ∧ circle = none ∧ c.Gathered (es ++ new)
  | .error (.dependencyCycle names) => Join es new ∧ ∃ ids, circle = some ids ∧ names = lib.names ids
  | .error _ => ¬ Join es new

theorem ends_error {circle : Option (List Nat)} {err : CompositionError}
    (herr : ∀ names, err ≠ .dependencyCycle names) (h : ¬ Join es new) : Ends lib es new circle (.error err) := by
  cases err with
  | dependencyCycle names => exact absurd rfl (herr names)
  | _ => exact h

theorem Ends.cons {new : List Extension} {circle : Option (List Nat)} {r : Except CompositionError Composer}
    (he : e.Whole ∧ ∀ a ∈ es, a.Apart e) (h : Ends lib (es ++ [e]) new circle r) : Ends lib es (e :: new) circle r := by
  have hjoin : Join es (e :: new) ↔ Join (es ++ [e]) new := join_cons.trans (and_iff_right he)
  cases r with
  | ok c =>
    rw [Ends, List.append_assoc] at h
    exact ⟨hjoin.2 h.1, h.2⟩
  | error err =>
    cases err with
    | dependencyCycle names => exact ⟨hjoin.2 h.1, h.2⟩
    | _ => exact mt hjoin.1 h

/-- A walk that meets no circle and nothing that clashes gathers all that it meets. -/
theorem Ends.exists_ok {new : List Extension} {r : Except CompositionError Composer} (h : Ends lib es new none r)
    (hjoin : Join es new) : ∃ c, r = .ok c ∧ c.Gathered (es ++ new) := by
  cases r with
  | ok c => exact ⟨c, rfl, h.2.2⟩
  | error err =>
    cases err with
    | dependencyCycle names =>
      obtain ⟨-, ids, hids, -⟩ := h
      cases hids
    | _ => exact absurd hjoin h

/-- It reports a circle where it meets one and nothing that clashes. -/
theorem Ends.eq_dependencyCycle_iff {new : List Extension} {circle : Option (List Nat)}
    {r : Except CompositionError Composer} (h : Ends lib es new circle r) :
    r = .error (.dependencyCycle names) ↔ Join es new ∧ ∃ ids, circle = some ids ∧ names = lib.names ids := by
  cases r with
  | ok c =>
    obtain ⟨-, rfl, -⟩ := h
    simp
  | error err =>
    cases err with
    | dependencyCycle names' =>
      obtain ⟨hjoin, ids, rfl, rfl⟩ := h
      simp [hjoin, eq_comm]
    | _ =>
      refine ⟨fun heq => ?_, fun hjoin => absurd hjoin.1 h⟩
      cases heq

/-- A walk goes the way of a visit and registers what the visit meets, as long as this goes together. -/
theorem Gathered.visit (h : c.Gathered es) (lib : Library) (todo : List Visit) :
    ∃ new, (lib.visitFrom c.path c.visited todo).order = c.visited.reverse ++ new ∧
      Ends lib es (new.filterMap (lib[·]?)) (lib.visitFrom c.path c.visited todo).circle (c.visit lib todo) := by
  fun_induction Composer.visit lib c todo generalizing es with
  | case1 c =>
    refine ⟨[], ?_, ?_⟩
    · rw [Library.visitFrom, List.append_nil]
    · rw [Library.visitFrom]
      refine ⟨join_nil es, rfl, ?_⟩
      rwa [List.filterMap_nil, List.append_nil]
  | case2 c r ih =>
    rw [Library.visitFrom_leave]
    exact ih (h.congr ..)
  | case3 c i r hp =>
    rw [Library.visitFrom_of_mem_path (by simpa using hp)]
    exact ⟨[], (List.append_nil _).symm, join_nil es, _, rfl, rfl⟩
  | case4 c i r hp hm ih =>
    rw [Library.visitFrom_of_mem_met (by simpa using hp) hm]
    exact ih h
  | case5 c i r hp hm hi err hreg =>
    have he : lib[i]? = some lib[i] := Array.getElem?_eq_getElem hi
    rw [Library.visitFrom_of_some (by simpa using hp) hm he]
    obtain ⟨new, hnew⟩ :=
      lib.exists_order_visitFrom (i :: c.path) (i :: c.visited) (lib[i].requires.map .enter ++ .leave :: r)
    refine ⟨i :: new, by rw [hnew, List.reverse_cons, List.append_assoc, List.singleton_append], ?_⟩
    refine ends_error (fun names hcycle => register_ne_dependencyCycle (hcycle ▸ hreg)) fun hjoin => ?_
    rw [List.filterMap_cons_some he] at hjoin
    obtain ⟨c', hok⟩ := (h.congr c.path (i :: c.visited)).exists_register_iff.2 (join_cons.1 hjoin).1
    rw [hreg] at hok
    cases hok
  | case6 c i r hp hm hi c' hreg ih =>
    have he : lib[i]? = some lib[i] := Array.getElem?_eq_getElem hi
    have hg := h.congr c.path (i :: c.visited)
    obtain ⟨hvisited, hpath⟩ := register_eq hreg
    obtain ⟨new, hnew, hends⟩ := ih ((hg.register hreg).congr ..)
    rw [Library.visitFrom_of_some (by simpa using hp) hm he]
    simp only [hvisited, hpath] at hnew hends ⊢
    refine ⟨i :: new, by rw [hnew, List.reverse_cons, List.append_assoc, List.singleton_append], ?_⟩
    rw [List.filterMap_cons_some he]
    exact hends.cons (hg.exists_register_iff.1 ⟨c', hreg⟩)
  | case7 c i r hp hm hi ih =>
    rw [Library.visitFrom_of_none (by simpa using hp) (by simpa using hi)]
    exact ih h

end Composer

namespace Library
open RichDoc.Composition
variable {lib : Library} {requested : List Nat} {c : Composition} {names : List String}

theorem ends_visit (lib : Library) (requested : List Nat) :
    Composer.Ends lib [] (lib.members requested) (lib.visit requested).circle
      (Composer.visit lib {} (requested.map .enter)) := by
  obtain ⟨new, hnew, hends⟩ := Composer.gathered_nil.visit lib (requested.map .enter)
  rwa [← show (lib.visit requested).order = new from hnew] at hends

theorem compose_eq_ok : lib.compose requested = .ok c ↔ (lib.visit requested).circle = none ∧
    (∀ e ∈ lib.members requested, e.Whole) ∧ (lib.members requested).Pairwise Extension.Apart ∧
      grammarOf (lib.members requested) = .ok c.grammar ∧ c = .of (lib.members requested) c.grammar := by
  have hends := lib.ends_visit requested
  rw [compose, bind_eq_ok]
  constructor
  · rintro ⟨m, hm, hc⟩
    rw [hm] at hends
    obtain ⟨hjoin, hcircle, hgathered⟩ := hends
    rw [List.nil_append] at hgathered
    rw [hgathered.finish_eq, map_eq_ok] at hc
    obtain ⟨g, hg, rfl⟩ := hc
    exact ⟨hcircle, hjoin.whole, hjoin.pairwise, hg, rfl⟩
  · rintro ⟨hcircle, hwhole, hpair, hg, hc⟩
    rw [hcircle] at hends
    obtain ⟨m, hm, hgathered⟩ := hends.exists_ok ⟨hwhole, by simp, hpair⟩
    rw [List.nil_append] at hgathered
    exact ⟨m, hm, by rw [hgathered.finish_eq, hg, hc]; rfl⟩

end Library
end RichDoc
