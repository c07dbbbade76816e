import TypedArchive.Proofs.Binding.Plain

/-! What the decoder takes back of what the encoder writes. The encoder copies members that a record
keeps beside its fields without a look at their types, and writes a variant of a union without a
look at how the decoder tells variants apart. What it writes is read again exactly if the data is
steady: such members fit the fields whose names they have, and of a union the JSON tells its own
variant or is taken by the one that it tells. -/

namespace TypedArchive

/-- The decoder can tell that a value stands for the variant of an index: the value has the
discriminant, or without one no earlier shape fits it. -/
def Told (discriminant : Option String) (variants : List Variant) (index : Nat) (v : Json) : Prop :=
  match discriminant with
  | some key => (v.get? key).isSome = true
  | none => ∀ i < index, ∀ earlier, variants[i]? = some earlier → earlier.shape.accepts v = false

/-- The index of the variant that data is written as, and what is written as it: a union's own, or
for a bare record or enum the one that its type name counts as. -/
def Encode.writtenAs? (c : Catalog) (variants : List Variant) : Data → Option (Nat × Data)
  | .union _ _ index payload => some (index, payload)
  | d => (d.typeName?.bind (variantNamed? c variants)).map fun index => (index, d)

/-- Where the encoder does not ask the decoder, the decoder takes what is written for the data. -/
inductive Catalog.Steady (c : Catalog) : TypeRef → Data → Prop
  | primitive {p : Primitive} {d : Data} : Steady c (.primitive p) d
  | literal {l : Literal} {d : Data} : Steady c (.literal l) d
  | array {t : TypeRef} {items : List Data} (each : ∀ d ∈ items, Steady c t d) :
      Steady c (.array t) (.array items)
  | map {t : TypeRef} {entries : List (String × Data)} (each : ∀ p ∈ entries, Steady c t p.2) :
      Steady c (.map t) (.map entries)
  /-- Kept members under the names of fields fit the types of the fields. -/
  | record {name : String} {e : Entry} {declared : List Field} {typeName : String}
      {fields : List (String × Data)} {extra : List (String × Json)}
      (entry : c.get? name = some e) (type : e.type = .record declared)
      (each : ∀ f ∈ declared, ∀ d, Assoc.get? fields f.name = some d → Steady c f.type d)
      (kept : ∀ f ∈ declared, Assoc.get? fields f.name = none →
        ∀ w, Assoc.get? extra f.name = some w → c.Accepts f.type w) :
      Steady c (.named name) (.record typeName fields extra)
  | enumeration {name : String} {e : Entry} {values : List Literal} {descriptions : List String}
      {d : Data} (entry : c.get? name = some e) (type : e.type = .enumeration values descriptions) :
      Steady c (.named name) d
  | arrayEntry {name : String} {e : Entry} {t : TypeRef} {d : Data} (entry : c.get? name = some e)
      (type : e.type = .array t) (h : Steady c (.array t) d) : Steady c (.named name) d
  | alias {name : String} {e : Entry} {t : TypeRef} {d : Data} (entry : c.get? name = some e)
      (type : e.type = .alias t) (h : Steady c t d) : Steady c (.named name) d
  /-- The JSON tells the variant that it is written as. -/
  | own {name : String} {e : Entry} {discriminant : Option String} {variants : List Variant}
      {index : Nat} {variant : Variant} {d payload : Data} (entry : c.get? name = some e)
      (type : e.type = .union discriminant variants)
      (written : Encode.writtenAs? c variants d = some (index, payload))
      (found : variants[index]? = some variant)
      (told : Told discriminant variants index payload.toJson)
      (h : Steady c variant.type payload) : Steady c (.named name) d
  /-- The JSON selects another variant, by its tag or as the first whose shape fits, which takes
  it. -/
  | other {name : String} {e : Entry} {discriminant : Option String} {variants : List Variant}
      {index chosen : Nat} {variant : Variant} {tag : Option Literal} {d payload : Data}
      (entry : c.get? name = some e) (type : e.type = .union discriminant variants)
      (written : Encode.writtenAs? c variants d = some (index, payload))
      (select : Decode.selectVariant e.name discriminant variants payload.toJson [] =
        .ok (chosen, variant, tag)) (differs : chosen ≠ index)
      (accepts : c.Accepts variant.type payload.toJson) : Steady c (.named name) d

namespace Encode

section Written

variable {c : Catalog} {d : Data} {name : String} {e : Entry} {path : FieldPath} {v : Json}

theorem writtenAs?_bare (bare : ∀ n g i p, d ≠ .union n g i p) (variants : List Variant) :
    writtenAs? c variants d =
      (d.typeName?.bind (variantNamed? c variants)).map fun index => (index, d) := by
  cases d with
  | «union» n g i p => exact absurd rfl (bare n g i p)
  | _ => rfl

/-- What a union is written as has the JSON of the union. -/
theorem writtenAs?_payload {variants : List Variant} {index : Nat} {payload : Data}
    (h : writtenAs? c variants d = some (index, payload)) :
    payload.toJson = d.toJson ∧ (d.Sorted → payload.Sorted) := by
  by_cases bare : ∀ n g i p, d ≠ .union n g i p
  · rw [writtenAs?_bare bare] at h
    obtain ⟨i, -, eq⟩ := Option.map_eq_some_iff.mp h
    cases eq
    exact ⟨rfl, id⟩
  · push Not at bare
    obtain ⟨n, g, i, inner, rfl⟩ := bare
    cases h
    exact ⟨rfl, id⟩

theorem value_arrayEntry {t : TypeRef} (entry : c.get? name = some e) (type : e.type = .array t) :
    value c d (.named name) path = value c d (.array t) path := by
  rw [value_eq, typeRef, typeRef]
  simp only [entry, type]

theorem value_alias_ok {t : TypeRef} (entry : c.get? name = some e) (type : e.type = .alias t)
    (h : value c d (.named name) path = .ok v) : value c d t path = .ok v := by
  rw [value_eq, typeRef] at h
  simp only [entry, type] at h
  rw [value_eq]
  exact typeRef_bounded h

/-- A record is written with the fields that it has, each as its type, and with the members that it
keeps beside them. -/
theorem value_record_ok {declared : List Field} {typeName : String} {fields : List (String × Data)}
    {extra : List (String × Json)} (entry : c.get? name = some e) (type : e.type = .record declared)
    (sorted : (Data.record typeName fields extra).Sorted)
    (h : value c (.record typeName fields extra) (.named name) path = .ok v) :
    ∃ members, v = .object members ∧
      (∀ key, Assoc.get? members key =
        ((Assoc.get? fields key).map Data.toJson).or (Assoc.get? extra key)) ∧
      (∀ f ∈ declared, f.optional = false → Assoc.contains members f.name = true) ∧
      ∀ f ∈ declared, ∀ d, Assoc.get? fields f.name = some d →
        d.Sorted ∧ ∃ path, value c d f.type path = .ok d.toJson := by
  obtain rfl := plain_of_sorted c sorted h
  rw [value_eq, typeRef] at h
  simp only [entry, type] at h
  obtain ⟨_, -, -, required, own, -⟩ := record_ok h
  obtain ⟨⟨keys, values⟩, -⟩ := sorted
  rw [Data.toJson, Data.overlay_eq_insertAll]
  refine ⟨_, rfl, Data.get?_overlay keys.keys_nodup extra, fun f mem needed => ?_,
    fun f mem d found => ?_⟩
  · rw [Assoc.contains_iff_mem_keys, Assoc.mem_keys_insertAll]
    left
    rw [← Assoc.keys, Data.keys_entriesToJson]
    exact required f mem needed
  · have sorted := Data.entriesSorted_iff.mp values _ (Assoc.mem_of_get? found)
    obtain ⟨path, w, written, -⟩ := own f mem d found
    obtain rfl := plain_of_sorted c sorted written
    exact ⟨sorted, path, written⟩

/-- A union is written as one of its variants. -/
theorem value_union_ok {discriminant : Option String} {variants : List Variant}
    (entry : c.get? name = some e) (type : e.type = .union discriminant variants)
    (h : value c d (.named name) path = .ok v) :
    ∃ index payload variant, writtenAs? c variants d = some (index, payload) ∧
      variants[index]? = some variant ∧ value c payload variant.type path = .ok v := by
  rw [value_eq] at h
  by_cases bare : ∀ n g i p, d ≠ .union n g i p
  · obtain ⟨variant, counts, h⟩ := (typeRef_union entry type bare).mp h
    obtain ⟨index, counts, found⟩ := Option.bind_eq_some_iff.mp counts
    refine ⟨index, d, variant, ?_, found, ?_⟩
    · rw [writtenAs?_bare bare, counts, Option.map_some]
    · rw [value_eq]
      exact typeRef_bounded h
  · push Not at bare
    obtain ⟨n, g, index, payload, rfl⟩ := bare
    rw [typeRef] at h
    simp only [entry, type, parts] at h
    split at h
    · next variant found => exact ⟨index, payload, variant, rfl, found, h⟩
    · cases h

end Written

end Encode

theorem Decode.told_of_selectVariant {name : String} {discriminant : Option String}
    {variants : List Variant} {v : Json} {path : FieldPath} {index : Nat} {variant : Variant}
    {tag : Option Literal}
    (h : selectVariant name discriminant variants v path = .ok (index, variant, tag)) :
    Told discriminant variants index v := by
  revert h
  fun_cases selectVariant name discriminant variants v path
  case case3 raw lookup _ _ _ _ _ =>
    intro h
    cases h
    rw [Told]
    exact Option.isSome_iff_exists.mpr ⟨raw, lookup⟩
  case case6 found =>
    intro h
    cases h
    obtain ⟨-, i, lt, eq, before⟩ := List.find?_eq_some_iff_getElem.mp found
    simp only [List.getElem_zipIdx, Nat.zero_add, Prod.mk.injEq] at eq before
    obtain ⟨rfl, rfl⟩ := eq
    intro j lt' earlier at'
    obtain ⟨lt'', rfl⟩ := List.getElem?_eq_some_iff.mp at'
    simpa using before j lt'
  all_goals
    intro h
    cases h

theorem Decode.primitive_sorted {p : Primitive} {v : Json} {d : Data} (sorted : v.Sorted)
    (h : primitive p v [] = .ok d) : d.Sorted := by
  revert h
  fun_cases primitive p v [] with
  | case4 n none | case8 p v =>
    intro h
    cases h
  | _ =>
    intro h
    cases h
    exact sorted

/-- All data that is read from JSON in order is in order. -/
theorem Catalog.Reads.sorted {c : Catalog} {t : TypeRef} {v : Json} {d : Data} (h : c.Reads t v d)
    (sorted : v.Sorted) : d.Sorted := by
  induction h with
  | primitive h => exact Decode.primitive_sorted sorted h
  | literal h =>
    rw [Decode.literal] at h
    split at h
    · exact Decode.primitive_sorted sorted h
    · cases h
  | @array t items ds length each ih =>
    refine Data.itemsSorted_iff.mpr fun d mem => ?_
    obtain ⟨w, both⟩ := Outcome.exists_mem_zip_right length mem
    exact ih _ both (Json.sorted_array.mp sorted w (List.of_mem_zip both).1)
  | @map t members entries keys each ih =>
    obtain ⟨ascending, values⟩ := Json.sorted_object.mp sorted
    refine ⟨?_, Data.entriesSorted_iff.mpr fun p mem => ?_⟩
    · rw [Assoc.Sorted, ← List.pairwise_map (f := Prod.fst)] at ascending ⊢
      exact keys ▸ ascending
    · obtain ⟨m, both⟩ := Outcome.exists_mem_zip_right (Outcome.length_of_map_eq keys) mem
      exact ih _ both (values m (List.of_mem_zip both).1)
  | @record name e declared members read entry type required names each ih =>
    obtain ⟨ascending, values⟩ := Json.sorted_object.mp sorted
    refine ⟨⟨Assoc.sorted_ofList _, Data.entriesSorted_iff.mpr fun p mem => ?_⟩,
      Json.sorted_object.mpr ⟨ascending.filter _, fun p mem => ?_⟩⟩
    · rw [Assoc.ofList_eq_insertAll] at mem
      have listed := (Assoc.mem_insertAll mem).resolve_right List.not_mem_nil
      obtain ⟨f, both⟩ := Outcome.exists_mem_zip_right (Outcome.length_of_map_eq names) listed
      have present := (List.mem_filter.mp (List.of_mem_zip both).1).2
      obtain ⟨w, found⟩ := Assoc.contains_iff_exists.mp present
      exact ih _ both w found (values _ (Assoc.mem_of_get? found))
    · exact values p (List.mem_filter.mp mem).1
  | enumeration entry type h =>
    obtain ⟨l, -, -, rfl⟩ := Decode.enumeration_ok.mp h
    trivial
  | arrayEntry entry type h ih => exact ih sorted
  | «alias» entry type h ih => exact ih sorted
  | «union» entry type select h ih => exact ih sorted

/-- What is written as a type and read as it again is written for steady data. -/
theorem Catalog.Reads.steady_of_written {c : Catalog} {t : TypeRef} {v : Json} {d' : Data}
    (h : c.Reads t v d') {d : Data} (sorted : d.Sorted) {path : FieldPath}
    (written : Encode.value c d t path = .ok v) : c.Steady t d := by
  induction h generalizing d path with
  | primitive => exact .primitive
  | literal => exact .literal
  | @array t items ds length each ih =>
    rw [Encode.value_eq] at written
    cases d with
    | array parts =>
      obtain ⟨_, eq, all⟩ := Encode.array_ok written
      cases eq
      refine .array fun d mem => ?_
      obtain ⟨w, both⟩ := Outcome.exists_mem_zip all.length_eq mem
      obtain ⟨path, own⟩ := List.forall₂_zip all both
      obtain ⟨d', read⟩ := Outcome.exists_mem_zip length (List.of_mem_zip both).2
      exact ih _ read (Data.itemsSorted_iff.mp sorted d mem) own
    | _ => cases written
  | @map t members entries keys each ih =>
    rw [Encode.value_eq] at written
    cases d with
    | map parts =>
      obtain ⟨_, eq, all⟩ := Encode.map_ok written
      cases eq
      refine .map fun p mem => ?_
      obtain ⟨m, both⟩ := Outcome.exists_mem_zip all.length_eq mem
      obtain ⟨-, path, own⟩ := List.forall₂_zip all both
      obtain ⟨q, read⟩ := Outcome.exists_mem_zip (Outcome.length_of_map_eq keys)
        (List.of_mem_zip both).2
      exact ih _ read (Data.entriesSorted_iff.mp sorted.2 p mem) own
    | _ => cases written
  | @record name e declared members read entry type required names each ih =>
    cases d with
    | record typeName fields extra =>
      obtain ⟨_, eq, member, -, own⟩ := Encode.value_record_ok entry type sorted written
      cases eq
      have reads {f : Field} (mem : f ∈ declared) {w : Json}
          (found : Assoc.get? members f.name = some w) : ∃ p,
            p ∈ (presentFields declared members).zip read ∧ p.1 = f := by
        have present : f ∈ presentFields declared members :=
          List.mem_filter.mpr ⟨mem, Assoc.contains_iff_exists.mpr ⟨w, found⟩⟩
        obtain ⟨q, both⟩ := Outcome.exists_mem_zip (Outcome.length_of_map_eq names) present
        exact ⟨_, both, rfl⟩
      refine .record entry type (fun f mem d found => ?_) fun f mem absent w found => ?_
      · have there : Assoc.get? members f.name = some d.toJson := by
          rw [member, found, Option.map_some, Option.some_or]
        obtain ⟨p, both, rfl⟩ := reads mem there
        obtain ⟨sorted, path, written⟩ := own p.1 mem d found
        exact ih p both d.toJson there sorted written
      · have there : Assoc.get? members f.name = some w := by
          rw [member, absent, Option.map_none, Option.none_or, found]
        obtain ⟨p, both, rfl⟩ := reads mem there
        exact ⟨_, each p both w there⟩
    | _ =>
      rw [Encode.value_eq, Encode.typeRef] at written
      simp only [entry, type] at written
      cases written
  | enumeration entry type h => exact .enumeration entry type
  | arrayEntry entry type h ih =>
    rw [Encode.value_arrayEntry entry type] at written
    exact .arrayEntry entry type (ih sorted written)
  | «alias» entry type h ih =>
    exact .alias entry type (ih sorted (Encode.value_alias_ok entry type written))
  | @«union» name e discriminant variants v chosen variant tag d' entry type select h ih =>
    obtain ⟨index, payload, own, as, found, written⟩ := Encode.value_union_ok entry type written
    have sorted := (Encode.writtenAs?_payload as).2 sorted
    obtain rfl := Encode.plain_of_sorted c sorted written
    by_cases same : chosen = index
    · subst same
      obtain rfl : variant = own :=
        Option.some.inj ((Decode.selectVariant_index select).symm.trans found)
      exact .own entry type as found (Decode.told_of_selectVariant select) (ih sorted written)
    · exact .other entry type as select same ⟨d', h⟩

/-- All data that is read is steady: it is written as what it was read from. -/
theorem Catalog.Reads.steady {c : Catalog} (distinct : c.FieldsDistinct) {t : TypeRef} {v : Json}
    {d : Data} (h : c.Reads t v d) (sorted : v.Sorted) : c.Steady t d :=
  h.steady_of_written (h.sorted sorted) ((h.inverse distinct sorted).2 [])

/-- A union takes what one of its variants takes where the decoder can tell that variant. -/
def Catalog.TellsVariants (c : Catalog) : Prop :=
  ∀ {name e discriminant variants index variant v}, c.get? name = some e →
    e.type = .union discriminant variants → variants[index]? = some variant →
    Told discriminant variants index v → c.Accepts variant.type v → c.Accepts (.named name) v

section Accepts

variable {c : Catalog} {t : TypeRef} {path : FieldPath} {v : Json}

/-- An array of items that are written to be read again. -/
theorem Catalog.accepts_of_array {items : List Data}
    (each : ∀ d ∈ items, ∀ path w, Encode.value c d t path = .ok w → c.Accepts t w)
    (h : Encode.array (.array items) (Encode.itemEncoders c items) t path = .ok v) :
    c.Accepts (.array t) v := by
  obtain ⟨written, rfl, all⟩ := Encode.array_ok h
  refine Catalog.accepts_array.mpr ⟨written, rfl, fun w mem => ?_⟩
  obtain ⟨d, both⟩ := Outcome.exists_mem_zip_right all.length_eq mem
  obtain ⟨path, own⟩ := List.forall₂_zip all both
  exact each d (List.of_mem_zip both).1 path w own

/-- A map of values that are written to be read again. -/
theorem Catalog.accepts_of_map {entries : List (String × Data)}
    (each : ∀ p ∈ entries, ∀ path w, Encode.value c p.2 t path = .ok w → c.Accepts t w)
    (h : Encode.map (.map entries) (Encode.entryEncoders c entries) t path = .ok v) :
    c.Accepts (.map t) v := by
  obtain ⟨members, rfl, all⟩ := Encode.map_ok h
  refine Catalog.accepts_map.mpr ⟨members, rfl, fun m mem => ?_⟩
  obtain ⟨p, both⟩ := Outcome.exists_mem_zip_right all.length_eq mem
  obtain ⟨-, path, own⟩ := List.forall₂_zip all both
  exact each p (List.of_mem_zip both).1 path m.2 own

/-- A record whose fields are written to be read again, and whose other members are in order where
they stand for fields, is written to be read again. -/
theorem Catalog.accepts_of_record {name typeName : String} {e : Entry} {declared : List Field}
    {fields : Assoc Data} {extra : Assoc Json} (entry : c.get? name = some e)
    (type : e.type = .record declared) (sorted : (Data.record typeName fields extra).Sorted)
    (each : ∀ f ∈ declared, ∀ d, fields.get? f.name = some d → d.Sorted → ∀ path w,
      Encode.value c d f.type path = .ok w → c.Accepts f.type w)
    (kept : ∀ f ∈ declared, fields.get? f.name = none →
      ∀ w, extra.get? f.name = some w → c.Accepts f.type w)
    (h : Encode.value c (.record typeName fields extra) (.named name) path = .ok v) :
    c.Accepts (.named name) v := by
  obtain ⟨members, rfl, member, required, own⟩ := Encode.value_record_ok entry type sorted h
  refine (Catalog.accepts_record entry type).mpr ⟨_, rfl, required, fun f mem w found => ?_⟩
  rw [member] at found
  cases present : fields.get? f.name with
  | some d =>
    obtain ⟨sorted, path, written⟩ := own f mem d present
    rw [present] at found
    cases found
    exact each f mem d present sorted path _ written
  | none =>
    rw [present] at found
    exact kept f mem present w found

end Accepts

/-- Steady data that is written is written to be read again. -/
theorem Catalog.Steady.accepts {c : Catalog} (tells : c.TellsVariants) {t : TypeRef} {d : Data}
    (steady : c.Steady t d) (sorted : d.Sorted) {path : FieldPath} {v : Json}
    (h : Encode.value c d t path = .ok v) : c.Accepts t v := by
  induction steady generalizing path v with
  | primitive =>
    rw [Encode.value_eq] at h
    exact Catalog.accepts_primitive.mpr (Encode.primitive_ok h).1
  | literal =>
    rw [Encode.value_eq] at h
    exact Catalog.accepts_literal.mpr (Encode.literal_ok h).1
  | @array t items each ih =>
    rw [Encode.value_eq] at h
    refine Catalog.accepts_of_array (fun d mem path w written => ?_) h
    exact ih d mem (Data.itemsSorted_iff.mp sorted d mem) written
  | @map t entries each ih =>
    rw [Encode.value_eq] at h
    refine Catalog.accepts_of_map (fun p mem path w written => ?_) h
    exact ih p mem (Data.entriesSorted_iff.mp sorted.2 p mem) written
  | record entry type each kept ih =>
    refine Catalog.accepts_of_record entry type sorted
      (fun f mem d found sorted path w written => ?_) kept h
    exact ih f mem d found sorted written
  | enumeration entry type =>
    rw [Encode.value_eq, Encode.typeRef] at h
    simp only [entry, type] at h
    obtain ⟨l, mem, literal, -⟩ := Encode.enumeration_ok h
    exact (Catalog.accepts_enumeration entry type).mpr ⟨l, mem, literal⟩
  | arrayEntry entry type steady ih =>
    rw [Encode.value_arrayEntry entry type] at h
    exact (Catalog.accepts_arrayEntry entry type).mpr (ih sorted h)
  | «alias» entry type steady ih =>
    exact (Catalog.accepts_alias entry type).mpr
      (ih sorted (Encode.value_alias_ok entry type h))
  | own entry type as found told steady ih =>
    obtain ⟨index, payload, variant, as', found', written⟩ := Encode.value_union_ok entry type h
    cases as.symm.trans as'
    cases found.symm.trans found'
    have sorted := (Encode.writtenAs?_payload as).2 sorted
    rw [← Encode.plain_of_sorted c sorted written] at told
    exact tells entry type found told (ih sorted written)
  | other entry type as select differs accepts =>
    obtain ⟨d', read⟩ := accepts
    rw [(Encode.writtenAs?_payload as).1, ← Encode.plain_of_sorted c sorted h] at select read
    exact ⟨_, .union entry type select read⟩

end TypedArchive
