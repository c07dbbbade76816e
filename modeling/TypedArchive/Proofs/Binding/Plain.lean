import TypedArchive.Proofs.Binding.Accepts

/-! What a value is written as. A type decides whether a value may be written, and never what is
written: that is the JSON that the value has without any type. -/

namespace TypedArchive

namespace Data

mutual

/-- All maps in a value, and all JSON that it keeps, have their keys in order. -/
def Sorted : Data → Prop
  | .array items => ItemsSorted items
  | .map entries => Assoc.Sorted entries ∧ EntriesSorted entries
  | .record _ fields extra =>
    (Assoc.Sorted fields ∧ EntriesSorted fields) ∧ (Json.object extra).Sorted
  | .union _ _ _ d => d.Sorted
  | .unknown v => v.Sorted
  | .null | .boolean _ | .integer _ | .number _ | .string _ | .enumeration .. => True

def ItemsSorted : List Data → Prop
  | [] => True
  | d :: rest => d.Sorted ∧ ItemsSorted rest

def EntriesSorted : List (String × Data) → Prop
  | [] => True
  | (_, d) :: rest => d.Sorted ∧ EntriesSorted rest

end

theorem itemsSorted_iff {items : List Data} : ItemsSorted items ↔ ∀ d ∈ items, d.Sorted := by
  induction items with
  | nil => simp [ItemsSorted]
  | cons d rest ih => rw [ItemsSorted, ih, List.forall_mem_cons]

theorem entriesSorted_iff {entries : List (String × Data)} :
    EntriesSorted entries ↔ ∀ p ∈ entries, p.2.Sorted := by
  induction entries with
  | nil => simp [EntriesSorted]
  | cons p rest ih =>
    obtain ⟨k, d⟩ := p
    rw [EntriesSorted, ih, List.forall_mem_cons]

mutual

def decSorted : (d : Data) → Decidable d.Sorted
  | .array items => @decidable_of_iff _ _ (by rw [Sorted]) (decItemsSorted items)
  | .map entries =>
    have := decEntriesSorted entries
    decidable_of_iff (Assoc.Sorted entries ∧ EntriesSorted entries) (by rw [Sorted])
  | .record _ fields extra =>
    have := decEntriesSorted fields
    decidable_of_iff ((Assoc.Sorted fields ∧ EntriesSorted fields) ∧ (Json.object extra).Sorted)
      (by rw [Sorted])
  | .union _ _ _ d => @decidable_of_iff _ _ (by rw [Sorted]) (decSorted d)
  | .unknown v => decidable_of_iff v.Sorted (by rw [Sorted])
  | .null | .boolean _ | .integer _ | .number _ | .string _ | .enumeration .. =>
    isTrue (by simp [Sorted])

def decItemsSorted : (items : List Data) → Decidable (ItemsSorted items)
  | [] => isTrue (by simp [ItemsSorted])
  | d :: rest =>
    have := decSorted d
    have := decItemsSorted rest
    decidable_of_iff (d.Sorted ∧ ItemsSorted rest) (by rw [ItemsSorted])

def decEntriesSorted : (entries : List (String × Data)) → Decidable (EntriesSorted entries)
  | [] => isTrue (by simp [EntriesSorted])
  | (_, d) :: rest =>
    have := decSorted d
    have := decEntriesSorted rest
    decidable_of_iff (d.Sorted ∧ EntriesSorted rest) (by rw [EntriesSorted])

end

instance (d : Data) : Decidable d.Sorted := decSorted d

mutual

theorem Sorted.toJson : {d : Data} → d.Sorted → d.toJson.Sorted
  | .array items, h => by
    rw [Data.toJson, Json.sorted_array, ← Json.itemsSorted_iff]
    exact itemsSorted_toJson h
  | .map entries, h => by
    rw [Data.toJson, Json.sorted_object, ← Json.membersSorted_iff]
    refine ⟨?_, membersSorted_toJson h.2⟩
    rw [entriesToJson_eq]
    exact List.pairwise_map.mpr h.1
  | .record _ fields extra, h => by
    obtain ⟨⟨-, entries⟩, kept⟩ := h
    obtain ⟨keys, members⟩ := Json.sorted_object.mp kept
    have written := Json.membersSorted_iff.mp (membersSorted_toJson entries)
    rw [Data.toJson, Data.overlay_eq_insertAll, Json.sorted_object]
    refine ⟨keys.insertAll _, fun p mem => ?_⟩
    rcases Assoc.mem_insertAll mem with mem | mem
    · exact written p mem
    · exact members p mem
  | .union _ _ _ d, h => by
    rw [Data.toJson]
    exact Sorted.toJson (d := d) h
  | .unknown v, h => h
  | .enumeration _ l, _ => by cases l <;> simp [Data.toJson, Literal.toJson, Json.Sorted, Json.ofInt64]
  | .null, _ | .boolean _, _ | .integer _, _ | .number _, _ | .string _, _ => by
    simp [Data.toJson, Json.Sorted, Json.ofInt64]

theorem itemsSorted_toJson : {items : List Data} → ItemsSorted items →
    Json.ItemsSorted (itemsToJson items)
  | [], _ => by simp [itemsToJson, Json.ItemsSorted]
  | d :: rest, h => by
    rw [itemsToJson, Json.ItemsSorted]
    exact ⟨Sorted.toJson h.1, itemsSorted_toJson h.2⟩

theorem membersSorted_toJson : {entries : List (String × Data)} → EntriesSorted entries →
    Json.MembersSorted (entriesToJson entries)
  | [], _ => by simp [entriesToJson, Json.MembersSorted]
  | (k, d) :: rest, h => by
    rw [entriesToJson, Json.MembersSorted]
    exact ⟨Sorted.toJson h.1, membersSorted_toJson h.2⟩

end

end Data

namespace Encode

theorem holds_of_isOfKind {p : Primitive} {v : Json} (h : isOfKind p v = true) :
    p.holds v = true := by
  rw [isOfKind.eq_def] at h
  split at h
  · next l literal =>
    rw [beq_iff_eq] at h
    rw [← h, Literal.ofJson?_eq_some.mp literal]
    exact l.primitive_holds
  · rw [beq_iff_eq] at h
    rw [h]
    rfl
  · cases h

theorem primitive_unknown {p : Primitive} (h : p ≠ .any) (w : Json) (path : FieldPath) :
    primitive p (.unknown w) path =
      if isOfKind p w then .ok w else wrongKind p.word (.unknown w) path := by
  cases p with
  | any => exact absurd rfl h
  | _ => rfl

/-- What is written as a primitive is the value's own JSON, and of the primitive's kind. -/
theorem primitive_ok {p : Primitive} {d : Data} {path : FieldPath} {v : Json}
    (h : primitive p d path = .ok v) : p.holds v = true ∧ v = d.toJson := by
  cases d with
  | integer i =>
    cases p <;> cases h
    · exact ⟨(Literal.integer i).primitive_holds, rfl⟩
    all_goals exact ⟨rfl, rfl⟩
  | unknown w =>
    by_cases any : p = .any
    · subst any
      cases h
      exact ⟨rfl, rfl⟩
    · rw [primitive_unknown any] at h
      split at h
      · next kind =>
        cases h
        exact ⟨holds_of_isOfKind kind, rfl⟩
      · cases h
  | _ =>
    cases p <;> cases h
    all_goals exact ⟨rfl, rfl⟩

theorem literal_ok {l : Literal} {d : Data} {path : FieldPath} {v : Json}
    (h : literal l d path = .ok v) : v = l.toJson ∧ v = d.toJson := by
  rw [literal] at h
  obtain ⟨w, written, h⟩ := Outcome.bind_eq_ok.mp h
  split at h
  · next accepts =>
    cases h
    exact ⟨Literal.ofJson?_eq_some.mp (beq_iff_eq.mp accepts), (primitive_ok written).2⟩
  · cases h

theorem enumeration_ok {name : String} {values : List Literal} {d : Data} {path : FieldPath}
    {v : Json} (h : enumeration name values d path = .ok v) :
    ∃ l ∈ values, v = l.toJson ∧ v = d.toJson := by
  rw [enumeration.eq_def] at h
  split at h
  · next l =>
    split at h
    · next mem =>
      cases h
      exact ⟨l, mem, rfl, rfl⟩
    · cases h
  · cases h

/-- The declared fields that are present are written over what is kept, in order. -/
theorem fields_inv {entries : Assoc Encoder} {declared : List Field} {path : FieldPath}
    {extra written : Assoc Json} (h : fields entries declared path extra = .ok written) :
    ∃ pairs, written = extra.insertAll pairs ∧
      (∀ f ∈ declared, f.optional = false → entries.contains f.name = true) ∧
      List.Forall₂ (fun f p => p.1 = f.name ∧ ∃ entry, entries.get? f.name = some entry ∧
        entry f.type (path.pushKey f.name) = .ok p.2)
        (declared.filter fun f => entries.contains f.name) pairs := by
  induction declared generalizing extra with
  | nil =>
    cases h
    exact ⟨[], rfl, List.forall_mem_nil _, .nil⟩
  | cons f declared ih =>
    rw [fields, List.foldlM_cons] at h
    obtain ⟨first, h₁, h⟩ := Outcome.bind_eq_ok.mp h
    obtain ⟨pairs, rfl, required, each⟩ := ih h
    rw [List.filter_cons]
    cases found : entries.get? f.name with
    | some entry =>
      have has : entries.contains f.name = true := Assoc.contains_iff_exists.mpr ⟨entry, found⟩
      simp only [found] at h₁
      obtain ⟨w, own, eq⟩ := Outcome.bind_eq_ok.mp h₁
      cases eq
      refine ⟨(f.name, w) :: pairs, rfl, List.forall_mem_cons.mpr ⟨fun _ => has, required⟩, ?_⟩
      rw [if_pos has]
      exact .cons ⟨rfl, entry, found, own⟩ each
    | none =>
      simp only [found] at h₁
      split at h₁
      · next optional =>
        cases h₁
        refine ⟨pairs, rfl, List.forall_mem_cons.mpr ⟨fun needed => ?_, required⟩, ?_⟩
        · rw [optional] at needed
          cases needed
        · rw [if_neg]
          · exact each
          · intro has
            obtain ⟨entry, eq⟩ := Assoc.contains_iff_exists.mp has
            rw [found] at eq
            cases eq
      · cases h₁

section Parts

variable {c : Catalog} {t : TypeRef} {path : FieldPath} {v : Json}

/-- What is written for the items of an array, one by one. -/
theorem array_ok {items : List Data}
    (h : array (.array items) (itemEncoders c items) t path = .ok v) :
    ∃ written, v = .array written ∧
      List.Forall₂ (fun d w => ∃ path, value c d t path = .ok w) items written := by
  simp only [array, Outcome.map_eq_ok, Outcome.mapM_eq_ok, itemEncoders_eq, List.zipIdx_map,
    List.forall₂_map_left_iff] at h
  obtain ⟨written, all, rfl⟩ := h
  have placed : List.Forall₂ (fun d w => ∃ path, value c d t path = .ok w)
      (items.zipIdx.map Prod.fst) written :=
    List.forall₂_map_left_iff.mpr (all.imp fun p w own => ⟨_, own⟩)
  rw [List.zipIdx_map_fst] at placed
  exact ⟨written, rfl, placed⟩

/-- What is written for the values of a map, one by one. -/
theorem map_ok {entries : List (String × Data)}
    (h : map (.map entries) (entryEncoders c entries) t path = .ok v) :
    ∃ members : List (String × Json), v = .object members ∧
      List.Forall₂ (fun p m => p.1 = m.1 ∧ ∃ path, value c p.2 t path = .ok m.2) entries
        members := by
  simp only [map, Outcome.map_eq_ok, Outcome.mapM_eq_ok, entryEncoders_eq,
    List.forall₂_map_left_iff, Outcome.bind_eq_ok, Outcome.pure_eq_ok] at h
  obtain ⟨members, all, rfl⟩ := h
  refine ⟨members, rfl, all.imp fun p m => ?_⟩
  rintro ⟨w, own, rfl⟩
  exact ⟨rfl, _, own⟩

/-- What is written for the fields of a record, one by one. -/
theorem record_ok {name typeName : String} {declared : List Field} {fields : List (String × Data)}
    {extra : List (String × Json)}
    (h : record name declared (.record typeName fields extra) (entryEncoders c fields) path =
      .ok v) :
    ∃ pairs : Assoc Json, v = .object (Assoc.insertAll extra pairs) ∧
      (∀ key ∈ Assoc.keys fields, key ∈ pairs.keys) ∧
      (∀ f ∈ declared, f.optional = false → f.name ∈ Assoc.keys fields) ∧
      (∀ f ∈ declared, ∀ d, Assoc.get? fields f.name = some d → ∃ path w,
        value c d f.type path = .ok w ∧ (f.name, w) ∈ pairs) ∧
      ∀ p ∈ pairs, ∃ f ∈ declared, ∃ d path, Assoc.get? fields f.name = some d ∧ p.1 = f.name ∧
        value c d f.type path = .ok p.2 := by
  rw [record] at h
  split at h
  · cases h
  · split at h
    · cases h
    · next known =>
      obtain ⟨written, h, eq⟩ := Outcome.map_eq_ok.mp h
      obtain ⟨pairs, rfl, required, each⟩ := fields_inv h
      have has (key) : Assoc.contains (entryEncoders c fields) key = true ↔
          key ∈ Assoc.keys fields := by
        rw [Assoc.contains_iff_mem_keys, entryEncoders_eq, Assoc.keys, Assoc.keys, List.map_map]
        rfl
      have entered {f} {entry} (found : Assoc.get? (entryEncoders c fields) f = some entry) :
          ∃ d, Assoc.get? fields f = some d ∧ entry = value c d := by
        rw [get?_entryEncoders] at found
        obtain ⟨d, found, eq⟩ := Option.map_eq_some_iff.mp found
        exact ⟨d, found, eq.symm⟩
      have pair (f) (mem : f ∈ declared) (own : f.name ∈ Assoc.keys fields) : ∃ p ∈ pairs,
          p.1 = f.name ∧ ∃ entry, Assoc.get? (entryEncoders c fields) f.name = some entry ∧
            entry f.type (path.pushKey f.name) = .ok p.2 := by
        have listed : f ∈ declared.filter fun f =>
            Assoc.contains (entryEncoders c fields) f.name :=
          List.mem_filter.mpr ⟨mem, (has f.name).mpr own⟩
        obtain ⟨p, both⟩ := Outcome.exists_mem_zip each.length_eq listed
        exact ⟨p, (List.of_mem_zip both).2, List.forall₂_zip each both⟩
      refine ⟨pairs, eq.symm, fun key mem => ?_, fun f mem needed => ?_, fun f mem d found => ?_,
        fun p mem => ?_⟩
      · obtain ⟨⟨_, d⟩, listed, rfl⟩ := List.mem_map.mp mem
        have unknown := List.find?_eq_none.mp known _ listed
        simp only [Bool.not_eq_true, Bool.not_eq_false', List.any_eq_true, beq_iff_eq] at unknown
        obtain ⟨f, declares, rfl⟩ := unknown
        obtain ⟨p, listed', eq, -⟩ := pair f declares (List.mem_map_of_mem listed)
        exact eq ▸ List.mem_map_of_mem listed'
      · exact (has f.name).mp (required f mem needed)
      · have own := Assoc.contains_iff_mem_keys.mp (Assoc.contains_iff_exists.mpr ⟨d, found⟩)
        obtain ⟨⟨_, w⟩, listed, rfl, entry, entered', written⟩ := pair f mem own
        obtain ⟨d', found', rfl⟩ := entered entered'
        cases found.symm.trans found'
        exact ⟨_, w, written, listed⟩
      · obtain ⟨f, both⟩ := Outcome.exists_mem_zip_right each.length_eq mem
        obtain ⟨eq, entry, entered', written⟩ := List.forall₂_zip each both
        obtain ⟨d, found, rfl⟩ := entered entered'
        exact ⟨f, (List.mem_filter.mp (List.of_mem_zip both).1).1, d, _, found, eq, written⟩

end Parts

end Encode

/-- A value stands right inside another. -/
inductive Data.Part : Data → Data → Prop
  | item {d : Data} {items : List Data} (mem : d ∈ items) : Part d (.array items)
  | entry {p : String × Data} {entries : List (String × Data)} (mem : p ∈ entries) :
      Part p.2 (.map entries)
  | field {typeName : String} {p : String × Data} {fields : List (String × Data)}
      {extra : List (String × Json)} (mem : p ∈ fields) :
      Part p.2 (.record typeName fields extra)
  | payload {typeName : String} {tag : Option Literal} {variant : Nat} {d : Data} :
      Part d (.union typeName tag variant d)

namespace Encode

/-- Whatever a value is written as, its own JSON is written. -/
def Plain (c : Catalog) (d : Data) : Prop :=
  ∀ ⦃t path v⦄, value c d t path = .ok v → v = d.toJson

section Parts

variable {c : Catalog} {t : TypeRef} {path : FieldPath} {v : Json}

theorem array_plain {items : List Data} (each : ∀ d ∈ items, Plain c d)
    (h : array (.array items) (itemEncoders c items) t path = .ok v) :
    v = (Data.array items).toJson := by
  obtain ⟨written, rfl, all⟩ := array_ok h
  have same : List.Forall₂ (fun d w => d.toJson = w) items written := by
    refine List.forall₂_iff_zip.mpr ⟨all.length_eq, fun {d w} both => ?_⟩
    obtain ⟨_, own⟩ := List.forall₂_zip all both
    exact (each d (List.of_mem_zip both).1 own).symm
  rw [Data.toJson, Data.itemsToJson_eq]
  exact congrArg _ (List.forall₂_eq_eq_eq ▸ List.forall₂_map_left_iff.mpr same).symm

theorem map_plain {entries : List (String × Data)} (each : ∀ p ∈ entries, Plain c p.2)
    (h : map (.map entries) (entryEncoders c entries) t path = .ok v) :
    v = (Data.map entries).toJson := by
  obtain ⟨members, rfl, all⟩ := map_ok h
  have same : List.Forall₂ (fun p m => (p.1, p.2.toJson) = m) entries members := by
    refine List.forall₂_iff_zip.mpr ⟨all.length_eq, fun {p m} both => ?_⟩
    obtain ⟨eq, _, own⟩ := List.forall₂_zip all both
    rw [eq, ← each p (List.of_mem_zip both).1 own]
  rw [Data.toJson, Data.entriesToJson_eq]
  exact congrArg _ (List.forall₂_eq_eq_eq ▸ List.forall₂_map_left_iff.mpr same).symm

/-- The fields are written in the order of the type and put into the plain JSON in key order. All of
them are written, so that both orders come to one object. -/
theorem record_plain {name typeName : String} {declared : List Field} {fields : Assoc Data}
    {extra : Assoc Json} (keys : fields.Sorted) (members : extra.Sorted)
    (each : ∀ p ∈ fields, Plain c p.2)
    (h : record name declared (.record typeName fields extra) (entryEncoders c fields) path =
      .ok v) : v = (Data.record typeName fields extra).toJson := by
  obtain ⟨pairs, rfl, covers, -, -, taken⟩ := record_ok h
  rw [Data.toJson, Data.overlay_eq_insertAll]
  refine congrArg _ (members.insertAll_eq (members.insertAll _) (fun p mem => ?_) fun key out => ?_)
  · obtain ⟨f, -, d, path, found, eq, own⟩ := taken p mem
    rw [Data.get?_overlay keys.keys_nodup, eq, found, each _ (Assoc.mem_of_get? found) own]
    rfl
  · have absent : fields.get? key = none :=
      Assoc.get?_eq_none_iff.mpr fun mem => out (covers key mem)
    rw [Data.get?_overlay keys.keys_nodup, absent]
    rfl

end Parts

section Whole

variable {c : Catalog} {d : Data} (sorted : d.Sorted) (each : ∀ p, p.Part d → Plain c p)
  {t : TypeRef} {path : FieldPath} {v : Json}

include each in
theorem plain_of_array (h : array d (parts c d).items t path = .ok v) : v = d.toJson := by
  cases d with
  | array items => exact array_plain (fun p mem => each p (.item mem)) h
  | _ => cases h

include each in
theorem plain_of_map (h : map d (parts c d).entries t path = .ok v) : v = d.toJson := by
  cases d with
  | map entries => exact map_plain (fun p mem => each p.2 (.entry mem)) h
  | _ => cases h

include sorted each

theorem plain_of_record {name : String} {declared : List Field}
    (h : record name declared d (parts c d).entries path = .ok v) : v = d.toJson := by
  cases d with
  | record typeName fields extra =>
    obtain ⟨⟨keys, -⟩, kept⟩ := sorted
    exact record_plain keys (Json.sorted_object.mp kept).1 (fun p mem => each p.2 (.field mem)) h
  | _ => cases h

/-- Names are followed until one says what the value is, or a variant hands its payload on. -/
theorem typeRef_plain {steps : Nat} (h : typeRef c d (parts c d) steps t path = .ok v) :
    v = d.toJson := by
  generalize eq : parts c d = all at h
  fun_induction typeRef c d all steps t path with
  | case1 steps d p path => exact (primitive_ok h).2
  | case2 steps d l path => exact (literal_ok h).2
  | case3 steps d t path => exact plain_of_array each (eq ▸ h)
  | case4 steps d t path => exact plain_of_map each (eq ▸ h)
  | case5 d name path => cases h
  | case6 d steps name path absent => cases h
  | case7 d steps name path e entry declared type => exact plain_of_record sorted each (eq ▸ h)
  | case8 d steps name path e entry values descriptions type =>
    obtain ⟨l, -, -, plain⟩ := enumeration_ok h
    exact plain
  | case9 d steps name path e entry t type => exact plain_of_array each (eq ▸ h)
  | case10 d steps name path e entry t type ih => exact ih sorted each eq h
  | case11 steps name path e entry discriminant variants type typeName tag index payload encode
      found variant at' =>
    cases found.symm.trans (congrArg EncoderParts.payload eq.symm)
    exact each payload .payload h
  | case12 steps name path e entry discriminant variants type typeName tag index payload encode
      found absent => cases h
  | case13 steps name path e entry discriminant variants type d unnamed bare => cases h
  | case14 steps name path e entry discriminant variants type d index named variant at' bare ih =>
    exact ih sorted each eq h
  | case15 steps name path e entry discriminant variants type d index named absent bare => cases h

end Whole

theorem plain_of_parts {c : Catalog} {d : Data} (sorted : d.Sorted)
    (each : ∀ p, p.Part d → Plain c p) : Plain c d := by
  intro t path v h
  rw [value_eq] at h
  exact typeRef_plain sorted each h

mutual

theorem plain_of_sorted (c : Catalog) : {d : Data} → d.Sorted → Plain c d
  | .array items, sorted => plain_of_parts sorted fun p part => by
    cases part with
    | item mem => exact items_plain c sorted p mem
  | .map entries, sorted => plain_of_parts sorted fun p part => by
    cases part with
    | entry mem => exact entries_plain c sorted.2 _ mem
  | .record _ fields extra, sorted => plain_of_parts sorted fun p part => by
    cases part with
    | field mem => exact entries_plain c sorted.1.2 _ mem
  | .union _ _ _ d, sorted => plain_of_parts sorted fun p part => by
    cases part with
    | payload => exact plain_of_sorted c (d := d) sorted
  | .null, sorted | .boolean _, sorted | .integer _, sorted | .number _, sorted
  | .string _, sorted | .enumeration .., sorted | .unknown _, sorted =>
    plain_of_parts sorted fun p part => by cases part

theorem items_plain (c : Catalog) : {items : List Data} → Data.ItemsSorted items →
    ∀ d ∈ items, Plain c d
  | [], _ => List.forall_mem_nil _
  | _ :: _, sorted => List.forall_mem_cons.mpr
    ⟨plain_of_sorted c sorted.1, items_plain c sorted.2⟩

theorem entries_plain (c : Catalog) : {entries : List (String × Data)} →
    Data.EntriesSorted entries → ∀ p ∈ entries, Plain c p.2
  | [], _ => List.forall_mem_nil _
  | (_, _) :: _, sorted => List.forall_mem_cons.mpr
    ⟨plain_of_sorted c sorted.1, entries_plain c sorted.2⟩

end

end Encode

/-- What is written for a value is the JSON of the value, at every type of every catalog. -/
theorem Catalog.encode_eq_toJson {c : Catalog} {name : String} {d : Data} (sorted : d.Sorted)
    {v : Json} (h : c.encode name d = .ok v) : v = d.toJson :=
  Encode.plain_of_sorted c sorted h

/-- A group in a union and one that stands there bare. A field is written over a member of its key
that was kept, and a member that was kept under the key of an absent field stays. -/
theorem Catalog.encode_eq_toJson_bare :
    let group : TypeDef := .record
      [⟨"size", .map .any, true, none⟩, ⟨"name", .primitive .string, true, none⟩,
        ⟨"items", .array (.named "Item"), false, none⟩]
    let item : TypeDef := .union (some "kind")
      [⟨some (.string "group"), .named "Group", .object ["items"]⟩]
    let c : Catalog := ⟨[("Group", ⟨"Group", "", none, group⟩), ("Item", ⟨"Item", "", none, item⟩)]⟩
    let bare : Data := .record "Group"
      [("items", .array []), ("size", .map [("h", .unknown (.ofInt64 2)), ("w", .integer 3)])]
      [("name", .null)]
    let d : Data := .union "Item" none 0 (.record "Group"
      [("items", .array [bare, .union "Item" none 0 bare])]
      [("items", .bool true), ("order", .ofInt64 7)])
    let inner : Json := .object [("items", .array []), ("name", .null),
      ("size", .object [("h", .ofInt64 2), ("w", .ofInt64 3)])]
    let v : Json := .object [("items", .array [inner, inner]), ("order", .ofInt64 7)]
    d.Sorted ∧ c.encode "Item" d = .ok v ∧ v = d.toJson := by
  intro group item c bare d inner v
  have sorted : d.Sorted := by decide +kernel
  have written : c.encode "Item" d = .ok v := by decide +kernel
  exact ⟨sorted, written, Catalog.encode_eq_toJson sorted written⟩

end TypedArchive
