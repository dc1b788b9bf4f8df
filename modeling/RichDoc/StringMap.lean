/-! # Maps from strings

`StringMap α`: finitely many strings with a value each, kept in increasing order of the strings, so
that two maps with the same contents are equal (`StringMap.ext_get?`). -/

namespace RichDoc

/-- Finitely many keys, in increasing order, with a value each. -/
structure StringMap (α : Type) where
  entries : List (String × α)
  sorted : entries.Pairwise fun a b => a.1 < b.1
deriving DecidableEq, Repr

namespace StringMap
variable {α β : Type}

/-- No key. -/
def empty : StringMap α := ⟨[], .nil⟩

instance : Inhabited (StringMap α) := ⟨empty⟩
instance : EmptyCollection (StringMap α) := ⟨empty⟩

/-- The value that goes with `k` in `es`. -/
def lookup (k : String) : List (String × α) → Option α
  | [] => none
  | e :: r => if k = e.1 then some e.2 else lookup k r

/-- The value of `k`. -/
def get? (m : StringMap α) (k : String) : Option α := lookup k m.entries

/-- Whether `k` has a value. -/
def contains (m : StringMap α) (k : String) : Bool := (m.get? k).isSome

def isEmpty (m : StringMap α) : Bool := m.entries.isEmpty

def keys (m : StringMap α) : List String := m.entries.map Prod.fst

/-- `es` with `k` set to `v`, for `es` in order. -/
def insertEntry (k : String) (v : α) : List (String × α) → List (String × α)
  | [] => [(k, v)]
  | e :: r => if k < e.1 then (k, v) :: e :: r else if k = e.1 then (k, v) :: r
    else e :: insertEntry k v r

theorem mem_insertEntry {k : String} {v : α} {es : List (String × α)} {x : String × α}
    (h : x ∈ insertEntry k v es) : x = (k, v) ∨ x ∈ es := by
  induction es with
  | nil => simpa [insertEntry] using h
  | cons e r ih =>
    unfold insertEntry at h
    split at h
    · simpa using h
    · split at h
      · rcases List.mem_cons.1 h with h | h
        · exact .inl h
        · exact .inr (List.mem_cons_of_mem _ h)
      · rcases List.mem_cons.1 h with h | h
        · exact .inr (h ▸ List.mem_cons_self ..)
        · rcases ih h with h | h
          · exact .inl h
          · exact .inr (List.mem_cons_of_mem _ h)

theorem lt_of_not_lt_of_ne {a b : String} (h : ¬ a < b) (hne : a ≠ b) : b < a := by
  by_cases hb : b < a
  · exact hb
  · exact absurd (String.le_antisymm (String.not_lt.1 hb) (String.not_lt.1 h)) hne

theorem sorted_insertEntry {k : String} {v : α} {es : List (String × α)}
    (h : es.Pairwise fun a b => a.1 < b.1) : (insertEntry k v es).Pairwise fun a b => a.1 < b.1 := by
  induction es with
  | nil => simp [insertEntry]
  | cons e r ih =>
    have hr := List.pairwise_cons.1 h
    unfold insertEntry
    split
    · next hk =>
      refine List.pairwise_cons.2 ⟨fun x hx => ?_, h⟩
      rcases List.mem_cons.1 hx with rfl | hx
      · exact hk
      · exact String.lt_trans hk (hr.1 x hx)
    · split
      · next hk => exact List.pairwise_cons.2 ⟨fun x hx => hk ▸ hr.1 x hx, hr.2⟩
      · next hlt hne =>
        refine List.pairwise_cons.2 ⟨fun x hx => ?_, ih hr.2⟩
        rcases mem_insertEntry hx with rfl | hx
        · exact lt_of_not_lt_of_ne hlt hne
        · exact hr.1 x hx

/-- `m` with `k` set to `v`. -/
def insert (m : StringMap α) (k : String) (v : α) : StringMap α :=
  ⟨insertEntry k v m.entries, sorted_insertEntry m.sorted⟩

/-- `m` without `k`. -/
def erase (m : StringMap α) (k : String) : StringMap α :=
  ⟨m.entries.filter fun e => e.1 != k, m.sorted.filter _⟩

/-- The map of a list of pairs; of two pairs with one key the later counts. -/
def ofList (es : List (String × α)) : StringMap α := es.foldl (fun m e => m.insert e.1 e.2) empty

theorem lookup_insertEntry (k : String) (v : α) (es : List (String × α)) (l : String) :
    lookup l (insertEntry k v es) = if l = k then some v else lookup l es := by
  induction es with
  | nil => simp [insertEntry, lookup]
  | cons e r ih =>
    unfold insertEntry
    split
    · simp [lookup]
    · split
      · next h => by_cases hl : l = k <;> simp [lookup, hl, ← h]
      · next hne =>
        by_cases hl : l = e.1
        · have : e.1 ≠ k := fun h => hne h.symm
          simp [lookup, hl, this]
        · simp [lookup, hl, ih]

@[simp] theorem get?_insert (m : StringMap α) (k : String) (v : α) (l : String) :
    (m.insert k v).get? l = if l = k then some v else m.get? l :=
  lookup_insertEntry k v m.entries l

@[simp] theorem get?_empty (l : String) : (empty : StringMap α).get? l = none := rfl

theorem lookup_filter_ne (k : String) (es : List (String × α)) (l : String) :
    lookup l (es.filter fun e => e.1 != k) = if l = k then none else lookup l es := by
  induction es with
  | nil => simp [lookup]
  | cons e r ih =>
    by_cases he : e.1 = k
    · by_cases hl : l = k
      · subst hl; simpa [he] using ih
      · simp [lookup, ih, hl, he]
    · by_cases hl : l = e.1
      · simp [lookup, he, hl]
      · simp [lookup, he, hl, ih]

@[simp] theorem get?_erase (m : StringMap α) (k l : String) :
    (m.erase k).get? l = if l = k then none else m.get? l :=
  lookup_filter_ne k m.entries l

theorem lookup_eq_none_of_lt {k : String} {es : List (String × α)} (h : ∀ e ∈ es, k < e.1) :
    lookup k es = none := by
  induction es with
  | nil => rfl
  | cons e r ih =>
    have hk : k ≠ e.1 := fun he => String.lt_irrefl _ (he ▸ h e (List.mem_cons_self ..))
    simp [lookup, hk, ih fun x hx => h x (List.mem_cons_of_mem _ hx)]

theorem eq_of_lookup_eq {es fs : List (String × α)} (he : es.Pairwise fun a b => a.1 < b.1)
    (hf : fs.Pairwise fun a b => a.1 < b.1) (h : ∀ k, lookup k es = lookup k fs) : es = fs := by
  induction es generalizing fs with
  | nil =>
    cases fs with
    | nil => rfl
    | cons f s => have := h f.1; simp [lookup] at this
  | cons e r ih =>
    cases fs with
    | nil => have := h e.1; simp [lookup] at this
    | cons f s =>
      have hr := List.pairwise_cons.1 he
      have hs := List.pairwise_cons.1 hf
      have hkey : e.1 = f.1 := by
        by_cases hlt : e.1 < f.1
        · have := h e.1
          rw [@lookup_eq_none_of_lt _ _ (f :: s) fun x hx => ?_] at this
          · simp [lookup] at this
          · rcases List.mem_cons.1 hx with rfl | hx
            · exact hlt
            · exact String.lt_trans hlt (hs.1 x hx)
        · by_cases hgt : f.1 < e.1
          · have := h f.1
            rw [@lookup_eq_none_of_lt _ _ (e :: r) fun x hx => ?_] at this
            · simp [lookup] at this
            · rcases List.mem_cons.1 hx with rfl | hx
              · exact hgt
              · exact String.lt_trans hgt (hr.1 x hx)
          · exact String.le_antisymm (String.not_lt.1 hgt) (String.not_lt.1 hlt)
      have hval : e.2 = f.2 := by
        have := h e.1
        simpa [lookup, hkey] using this
      have htail : r = s := by
        refine ih hr.2 hs.2 fun k => ?_
        by_cases hk : k = e.1
        · subst hk
          rw [lookup_eq_none_of_lt hr.1, lookup_eq_none_of_lt (hkey ▸ hs.1)]
        · have := h k
          simpa [lookup, hk, ← hkey] using this
      rw [htail, Prod.ext hkey hval]

/-- Two maps with the same values are the same. -/
theorem ext_get? {m n : StringMap α} (h : ∀ k, m.get? k = n.get? k) : m = n := by
  obtain ⟨es, he⟩ := m
  obtain ⟨fs, hf⟩ := n
  congr
  exact eq_of_lookup_eq he hf h

end StringMap
end RichDoc
