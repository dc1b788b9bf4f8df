import RichDoc.Proofs.Catalog.Converters
import RichDoc.Proofs.Grammar.Made

/-!
# Attributes that converters keep

The converters write attributes as further data of tree nodes and read them back, each with the type that it
expects: `nodeForms` and `markForms` list these types. On attributes of these types what is read is what was
written (`ofList_attrs_tree`, `attrs_tree`), and what is read is always of these types (`typed_of_node`,
`typed_of_mark`).
-/

namespace RichDoc

namespace StringMap
variable {α : Type}

@[simp] theorem get?_emptyCollection (k : String) : (∅ : StringMap α).get? k = none := rfl

theorem get?_foldl_insert {as : StringMap α} {es : List (String × α)} (h : ∀ e ∈ es, as.get? e.1 = some e.2)
    (m : StringMap α) (k : String) :
    (es.foldl (fun m e => m.insert e.1 e.2) m).get? k = if k ∈ es.map Prod.fst then as.get? k else m.get? k := by
  induction es generalizing m with
  | nil => simp
  | cons e r ih =>
    rw [List.foldl_cons, ih fun x hx => h x (List.mem_cons_of_mem _ hx), get?_insert]
    by_cases hr : k ∈ r.map Prod.fst
    · simp only [hr, if_true, List.map_cons, List.mem_cons, or_true]
    · by_cases he : k = e.1
      · simp [he, h e (List.mem_cons_self ..)]
      · simp [hr, he]

theorem isSome_get?_foldl_insert (es : List (String × α)) (m : StringMap α) (k : String) :
    ((es.foldl (fun m e => m.insert e.1 e.2) m).get? k).isSome ↔ k ∈ es.map Prod.fst ∨ (m.get? k).isSome := by
  induction es generalizing m with
  | nil => simp
  | cons e r ih =>
    rw [List.foldl_cons, ih, get?_insert]
    by_cases he : k = e.1
    · simp [he]
    · simp [he]

theorem isSome_get?_ofList {es : List (String × α)} {k : String} :
    ((ofList es).get? k).isSome ↔ k ∈ es.map Prod.fst := by
  simp [ofList, isSome_get?_foldl_insert]

/-- A map that holds the entries and no other key is the map of the entries. -/
theorem ofList_eq {as : StringMap α} {es : List (String × α)} (h : ∀ e ∈ es, as.get? e.1 = some e.2)
    (hnone : ∀ k, k ∉ es.map Prod.fst → as.get? k = none) : ofList es = as := by
  refine ext_get? fun k => ?_
  rw [ofList, get?_foldl_insert h]
  split
  · rfl
  · next hk => rw [hnone k hk, get?_empty]

end StringMap

/-- Filled attributes have exactly the declared keys. -/
theorem AttrSpecs.keys_of_fill {owner : String} {given a : Data} {es : List (String × Option Json)}
    (h : fill owner given es = .ok a) :
    (∀ e ∈ es, ∃ v, a.get? e.1 = some v) ∧ ∀ k, k ∉ es.map Prod.fst → a.get? k = none := by
  refine ⟨fun e he => Option.isSome_iff_exists.1 (isSome_of_fill h e he), fun k hk => ?_⟩
  rw [get?_fill h, Option.not_isSome_iff_eq_none.1 (mt StringMap.isSome_lookup.1 hk), Option.bind_none]

namespace Catalog

/-- The type of an attribute. -/
inductive AttrForm where
  | nat | bool | str | boolOrNull | strOrNull
deriving DecidableEq, Repr

def AttrForm.admits : AttrForm → Json → Bool
  | nat, v => v.nat?.isSome
  | bool, v => v.bool?.isSome
  | str, v => v.str?.isSome
  | boolOrNull, v => v = .null || v.bool?.isSome
  | strOrNull, v => v = .null || v.str?.isSome

/-- The types of the attributes of nodes: node type, attribute, form. -/
def nodeForms : List (String × String × AttrForm) := [
  ("heading", "level", .nat), ("list", "ordered", .bool), ("list", "start", .nat),
  ("list_item", "checked", .boolOrNull), ("table_row", "header", .bool), ("image", "src", .str),
  ("image", "alt", .strOrNull), ("image", "title", .strOrNull), ("code_block", "language", .strOrNull),
  ("code_block", "meta", .strOrNull)]

/-- The types of the attributes of marks. -/
def markForms : List (String × String × AttrForm) := [("link", "href", .str), ("link", "title", .strOrNull)]

/-- The attributes of something of type `type` have their forms. -/
def Typed (forms : List (String × String × AttrForm)) (type : String) (attrs : Data) : Prop :=
  ∀ f ∈ forms, type = f.1 → ∀ v ∈ attrs.get? f.2.1, f.2.2.admits v

instance (forms : List (String × String × AttrForm)) (type : String) (attrs : Data) :
    Decidable (Typed forms type attrs) := by
  unfold Typed
  infer_instance

/-- A list without numbers starts at 1. -/
def Numbered (d : Document) : Prop :=
  d.type = "list" → d.attrs.bool? "ordered" = some false → d.attrs.nat? "start" = some 1

instance : DecidablePred Numbered := fun d => by
  unfold Numbered
  infer_instance

namespace AttrForm
variable {v : Json}

@[simp] theorem admits_nat {n : Nat} (h : n < UInt64.size) : nat.admits (.int n) := by
  simp [admits, Json.nat?_eq_some.2 ⟨rfl, h⟩]

@[simp] theorem admits_bool (b : Bool) : bool.admits (.bool b) := rfl
@[simp] theorem admits_str (s : String) : str.admits (.str s) := rfl

@[simp] theorem admits_boolOrNull (o : Option Bool) : boolOrNull.admits (o.elim .null .bool) := by
  cases o <;> rfl

@[simp] theorem admits_strOrNull (o : Option String) : strOrNull.admits (orNull o) := by
  cases o <;> rfl

theorem nat_admits (h : nat.admits v) : ∃ n : Nat, v = .int n ∧ v.nat? = some n := by
  obtain ⟨n, hn⟩ := Option.isSome_iff_exists.1 h
  exact ⟨n, (Json.nat?_eq_some.1 hn).1, hn⟩

theorem bool_admits (h : bool.admits v) : ∃ b, v = .bool b := by
  match v, h with
  | .bool b, _ => exact ⟨b, rfl⟩

theorem str_admits (h : str.admits v) : ∃ s, v = .str s := by
  match v, h with
  | .str s, _ => exact ⟨s, rfl⟩

theorem boolOrNull_admits (h : boolOrNull.admits v) : v = .null ∨ ∃ b, v = .bool b := by
  match v, h with
  | .null, _ => exact .inl rfl
  | .bool b, _ => exact .inr ⟨b, rfl⟩

theorem strOrNull_admits (h : strOrNull.admits v) : v = .null ∨ ∃ s, v = .str s := by
  match v, h with
  | .null, _ => exact .inl rfl
  | .str s, _ => exact .inr ⟨s, rfl⟩

end AttrForm

variable {x : NodeConverter} {y : MarkConverter} {d e : Document} {m : Mark} {n : Node} {cs : List Document}

/-- A made node has exactly the declared attributes. -/
theorem attrs_of_node (hx : x ∈ nodeConverters) (hd : d.type = x.type)
    (h : standardGrammar.node d.type d.attrs d.content = .ok d.bare) :
    (∀ s ∈ x.specs, ∃ v, d.attrs.get? s.1 = some v) ∧ ∀ k, k ∉ x.specs.map Prod.fst → d.attrs.get? k = none := by
  obtain ⟨t, a, ht, -, ha, -, -, hb⟩ := Grammar.node_eq_ok.1 h
  obtain ⟨-, t', ht', hspecs⟩ := nodeType?_converter hx
  rw [hd, ht'] at ht
  cases ht
  have hattrs : d.attrs = a := congrArg Document.attrs hb
  rw [hspecs, ← hattrs] at ha
  exact AttrSpecs.keys_of_fill ha

theorem mem_keys_attrs (hx : x ∈ nodeConverters) (n : Node) (k : String) :
    k ∈ (x.attrs n).map Prod.fst ↔ k ∈ x.specs.map Prod.fst := by
  simp only [nodeConverters, List.mem_cons, List.not_mem_nil, or_false] at hx
  rcases hx with rfl | rfl | rfl | rfl | rfl | rfl | rfl | rfl | rfl | rfl | rfl | rfl | rfl | rfl
  all_goals simp [or_left_comm]

/-- What a node converter reads off the tree node are the attributes that it was made of. -/
theorem ofList_attrs_tree (hx : x ∈ nodeConverters) (hd : d.type = x.type)
    (h : standardGrammar.node d.type d.attrs d.content = .ok d.bare) (ht : Typed nodeForms d.type d.attrs)
    (hn : Numbered d) (ns : List Node) : StringMap.ofList (x.attrs (x.tree d ns)) = d.attrs := by
  obtain ⟨hsome, hnone⟩ := attrs_of_node hx hd h
  refine StringMap.ofList_eq ?_ fun k hk => hnone k fun hk' => hk ((mem_keys_attrs hx _ k).2 hk')
  simp only [nodeConverters, List.mem_cons, List.not_mem_nil, or_false] at hx
  rcases hx with rfl | rfl | rfl | rfl | rfl | rfl | rfl | rfl | rfl | rfl | rfl | rfl | rfl | rfl
  · simp
  · simp
  · obtain ⟨v, hv⟩ := hsome ("level", some (1 : Nat)) (by simp)
    obtain ⟨i, rfl, hi⟩ := AttrForm.nat_admits (ht ("heading", "level", .nat) (by simp [nodeForms]) hd _ hv)
    simp [NodeConverter.tree, StringMap.nat?, hv, hi]
  · simp
  · obtain ⟨v, hv⟩ := hsome ("language", some .null) (by simp)
    obtain ⟨w, hw⟩ := hsome ("meta", some .null) (by simp)
    have hv' := AttrForm.strOrNull_admits (ht ("code_block", "language", .strOrNull) (by simp [nodeForms]) hd _ hv)
    have hw' := AttrForm.strOrNull_admits (ht ("code_block", "meta", .strOrNull) (by simp [nodeForms]) hd _ hw)
    rcases hv' with rfl | ⟨s, rfl⟩ <;> rcases hw' with rfl | ⟨t, rfl⟩ <;>
      simp [NodeConverter.tree, StringMap.str?, Json.str?, setSome, orNull, hv, hw]
  · simp
  · simp
  · obtain ⟨v, hv⟩ := hsome ("src", none) (by simp)
    obtain ⟨w, hw⟩ := hsome ("alt", some .null) (by simp)
    obtain ⟨u, hu⟩ := hsome ("title", some .null) (by simp)
    obtain ⟨s, rfl⟩ := AttrForm.str_admits (ht ("image", "src", .str) (by simp [nodeForms]) hd _ hv)
    have hw' := AttrForm.strOrNull_admits (ht ("image", "alt", .strOrNull) (by simp [nodeForms]) hd _ hw)
    have hu' := AttrForm.strOrNull_admits (ht ("image", "title", .strOrNull) (by simp [nodeForms]) hd _ hu)
    rcases hw' with rfl | ⟨t, rfl⟩ <;> rcases hu' with rfl | ⟨r, rfl⟩ <;>
      simp [NodeConverter.tree, StringMap.str?, Json.str?, setSome, orNull, hv, hw, hu]
  · obtain ⟨v, hv⟩ := hsome ("ordered", some (false : Bool)) (by simp)
    obtain ⟨w, hw⟩ := hsome ("start", some (1 : Nat)) (by simp)
    obtain ⟨b, rfl⟩ := AttrForm.bool_admits (ht ("list", "ordered", .bool) (by simp [nodeForms]) hd _ hv)
    obtain ⟨i, rfl, hi⟩ := AttrForm.nat_admits (ht ("list", "start", .nat) (by simp [nodeForms]) hd _ hw)
    cases b with
    | true => simp [NodeConverter.tree, StringMap.bool?, StringMap.nat?, Json.bool?, setSome, hv, hw, hi]
    | false =>
      -- `start` is not written, so it has to be what is read in its absence
      have hone := hn hd (by simp [StringMap.bool?, Json.bool?, hv])
      simp only [StringMap.nat?, hw, Option.bind_some, hi, Option.some.injEq] at hone
      simp [NodeConverter.tree, StringMap.bool?, StringMap.nat?, Json.bool?, setSome, hv, hw, hone]
  · obtain ⟨v, hv⟩ := hsome ("checked", some .null) (by simp)
    have hv' := AttrForm.boolOrNull_admits (ht ("list_item", "checked", .boolOrNull) (by simp [nodeForms]) hd _ hv)
    rcases hv' with rfl | ⟨b, rfl⟩ <;> simp [NodeConverter.tree, StringMap.bool?, Json.bool?, setSome, hv]
  · obtain ⟨v, hv⟩ := hsome ("align", some (.arr [])) (by simp)
    simp [NodeConverter.tree, hv]
  · obtain ⟨v, hv⟩ := hsome ("header", some (false : Bool)) (by simp)
    obtain ⟨b, rfl⟩ := AttrForm.bool_admits (ht ("table_row", "header", .bool) (by simp [nodeForms]) hd _ hv)
    cases b <;> simp [NodeConverter.tree, StringMap.bool?, Json.bool?, setSome, hv]
  · simp
  · simp

/-- The attributes of a node that a converter makes are the ones that it read. -/
theorem attrs_eq_ofList (hx : x ∈ nodeConverters)
    (h : standardGrammar.node x.type (.ofList (x.attrs n)) cs = .ok e) : e.attrs = .ofList (x.attrs n) := by
  obtain ⟨t, a, ht, -, ha, -, -, rfl⟩ := Grammar.node_eq_ok.1 h
  obtain ⟨-, t', ht', hspecs⟩ := nodeType?_converter hx
  rw [ht'] at ht
  cases ht
  rw [hspecs] at ha
  exact AttrSpecs.eq_of_fill ha fun k => by
    rw [StringMap.isSome_get?_ofList, StringMap.isSome_lookup, mem_keys_attrs hx]

theorem typed_of_node (hx : x ∈ nodeConverters)
    (h : standardGrammar.node x.type (.ofList (x.attrs n)) cs = .ok e) : Typed nodeForms e.type e.attrs := by
  rw [attrs_eq_ofList hx h, (Grammar.node_node h).2.1]
  simp only [nodeConverters, List.mem_cons, List.not_mem_nil, or_false] at hx
  rcases hx with rfl | rfl | rfl | rfl | rfl | rfl | rfl | rfl | rfl | rfl | rfl | rfl | rfl | rfl
  all_goals simp [Typed, nodeForms, StringMap.ofList, StringMap.getD_nat?_lt_size (n := 1) (by decide)]

theorem listConverter (hx : x ∈ nodeConverters) (h : x.type = "list") : x.kind = .list ∧
    ∀ n, x.attrs n = [("ordered", .bool ((n.data.bool? "ordered").getD false)),
      ("start", .int ((n.data.nat? "start").getD 1 : Nat))] := by
  simp only [nodeConverters, List.mem_cons, List.not_mem_nil, or_false] at hx
  rcases hx with rfl | rfl | rfl | rfl | rfl | rfl | rfl | rfl | rfl | rfl | rfl | rfl | rfl | rfl
  case inr.inr.inr.inr.inr.inr.inr.inr.inl => exact ⟨rfl, fun _ => rfl⟩
  all_goals exact absurd h (by decide)

theorem numbered_of_node (hx : x ∈ nodeConverters)
    (h : standardGrammar.node x.type (.ofList (x.attrs n)) cs = .ok e)
    (hl : x.kind = .list → n.data.contains "start" → n.data.bool? "ordered" = some true) : Numbered e := by
  intro hlist hfalse
  rw [(Grammar.node_node h).2.1] at hlist
  obtain ⟨hkind, hattrs⟩ := listConverter hx hlist
  rw [attrs_eq_ofList hx h, hattrs] at hfalse ⊢
  have hnone : n.data.get? "start" = none := by
    cases hs : n.data.get? "start" with
    | none => rfl
    | some v =>
      have htrue := hl hkind (by simp [StringMap.contains, hs])
      simp [StringMap.ofList, StringMap.bool?, Json.bool?] at hfalse htrue
      simp [htrue] at hfalse
  have hone : Json.nat? (.int 1) = some 1 := rfl
  simp [StringMap.ofList, StringMap.nat?, hnone, hone]

theorem markType?_converter (hy : y ∈ markConverters) :
    ∃ t, standardGrammar.markType? y.type = some t ∧ t.spec.attrs.entries = y.specs := by
  simp only [markConverters, List.mem_cons, List.not_mem_nil, or_false] at hy
  rcases hy with rfl | rfl | rfl | rfl <;> exact ⟨_, rfl, rfl⟩

/-- A made mark has exactly the declared attributes. -/
theorem attrs_of_mark (hy : y ∈ markConverters) (hm : m.type = y.type)
    (h : standardGrammar.mark m.type m.attrs = .ok m) :
    (∀ s ∈ y.specs, ∃ v, m.attrs.get? s.1 = some v) ∧ ∀ k, k ∉ y.specs.map Prod.fst → m.attrs.get? k = none := by
  obtain ⟨t, a, ht, ha, hb⟩ := Grammar.mark_eq_ok.1 h
  obtain ⟨t', ht', hspecs⟩ := markType?_converter hy
  rw [hm, ht'] at ht
  cases ht
  have hattrs : m.attrs = a := congrArg Mark.attrs hb
  rw [hspecs, ← hattrs] at ha
  exact AttrSpecs.keys_of_fill ha

/-- What a mark converter reads off the tree node are the attributes that the mark was made of. -/
theorem attrs_tree (hy : y ∈ markConverters) (hm : m.type = y.type)
    (h : standardGrammar.mark m.type m.attrs = .ok m) (ht : Typed markForms m.type m.attrs) (ns : List Node) :
    y.attrs (y.tree m ns) = .ok m.attrs := by
  obtain ⟨hsome, hnone⟩ := attrs_of_mark hy hm h
  have hempty : y.specs = [] → m.attrs = ∅ := fun hs =>
    StringMap.ext_get? fun k => by simp [hnone k (by simp [hs])]
  simp only [markConverters, List.mem_cons, List.not_mem_nil, or_false] at hy
  rcases hy with rfl | rfl | rfl | rfl
  · exact congrArg Except.ok (hempty rfl).symm
  · exact congrArg Except.ok (hempty rfl).symm
  · exact congrArg Except.ok (hempty rfl).symm
  · obtain ⟨v, hv⟩ := hsome ("href", none) (by simp)
    obtain ⟨w, hw⟩ := hsome ("title", some .null) (by simp)
    obtain ⟨s, rfl⟩ := AttrForm.str_admits (ht ("link", "href", .str) (by simp [markForms]) hm _ hv)
    have hw' := AttrForm.strOrNull_admits (ht ("link", "title", .strOrNull) (by simp [markForms]) hm _ hw)
    have hof : StringMap.ofList [("href", .str s), ("title", w)] = m.attrs :=
      StringMap.ofList_eq (by simp [hv, hw]) fun k hk => hnone k (by simpa using hk)
    rw [← hof]
    rcases hw' with rfl | ⟨t, rfl⟩ <;>
      simp [MarkConverter.tree, StringMap.str?, Json.str?, setSome, orNull, hv, hw]

theorem typed_of_mark {as : Data} (hy : y ∈ markConverters) (has : y.attrs n = .ok as)
    (h : standardGrammar.mark y.type as = .ok m) : Typed markForms m.type m.attrs := by
  obtain ⟨t, a, ht, ha, rfl⟩ := Grammar.mark_eq_ok.1 h
  obtain ⟨t', ht', hspecs⟩ := markType?_converter hy
  rw [ht'] at ht
  cases ht
  rw [hspecs] at ha
  simp only [markConverters, List.mem_cons, List.not_mem_nil, or_false] at hy
  rcases hy with rfl | rfl | rfl | rfl
  · simp [Typed, markForms]
  · simp [Typed, markForms]
  · simp [Typed, markForms]
  · have hget := fun k => AttrSpecs.get?_fill ha k
    simp only at has
    split at has
    · simp at has
    · next url hurl =>
      cases has
      simp [Typed, markForms, hget, StringMap.lookup, StringMap.ofList]

end Catalog
end RichDoc
