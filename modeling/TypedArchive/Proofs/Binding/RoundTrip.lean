import Mathlib.Data.List.Zip
import TypedArchive.Binding.Encode
import TypedArchive.Proofs.Binding.Reads
import TypedArchive.Proofs.Json.Sorted

/-! Writing gives back what was read. Both directions meet at the readings of a value: each reading
is data whose JSON is the value, and whose encoder accepts it. -/

namespace TypedArchive

theorem Number.ofInt64_of_toInt64? {n : Number} {i : Int64} (h : n.toInt64? = some i) :
    Number.ofInt64 i = n := by
  cases n with
  | integer j fits =>
    simp only [Number.toInt64?] at h
    split at h
    · next small =>
      cases h
      simp only [Number.ofInt64, Number.integer.injEq]
      exact Int64.toInt_ofInt_of_le (by simpa using fits.1) (by simpa using small)
    · cases h
  | double x => cases h

theorem Literal.toJson_of_ofJson? {v : Json} {l : Literal} (h : Literal.ofJson? v = some l) :
    l.toJson = v := by
  cases v with
  | number n =>
    obtain ⟨i, hi, rfl⟩ := Option.map_eq_some_iff.mp h
    rw [Literal.toJson, Json.ofInt64, Number.ofInt64_of_toInt64? hi]
  | array items => cases h
  | object members => cases h
  | _ => cases h; rfl

namespace Data

theorem itemsToJson_eq (items : List Data) : itemsToJson items = items.map toJson := by
  induction items with
  | nil => rfl
  | cons d rest ih => rw [itemsToJson, ih, List.map_cons]

theorem entriesToJson_eq (entries : List (String × Data)) :
    entriesToJson entries = entries.map fun p => (p.1, p.2.toJson) := by
  induction entries with
  | nil => rfl
  | cons p rest ih =>
    obtain ⟨k, d⟩ := p
    rw [entriesToJson, ih, List.map_cons]

theorem overlay_eq_insertAll (base : Assoc Json) (members : List (String × Json)) :
    overlay base members = base.insertAll members := rfl

theorem get?_entriesToJson (entries : Assoc Data) (key : String) :
    Assoc.get? (entriesToJson entries) key = (entries.get? key).map toJson := by
  rw [entriesToJson_eq]
  exact Assoc.get?_mapValues toJson entries key

theorem keys_entriesToJson (entries : Assoc Data) :
    Assoc.keys (entriesToJson entries) = entries.keys := by
  rw [entriesToJson_eq, Assoc.keys, List.map_map]
  rfl

/-- A member is that of a field where there is one, and else what was kept. -/
theorem get?_overlay {fields : Assoc Data} (distinct : fields.keys.Nodup) (extra : Assoc Json)
    (key : String) : (extra.insertAll (entriesToJson fields)).get? key =
      ((fields.get? key).map toJson).or (extra.get? key) := by
  rw [← get?_entriesToJson]
  cases found : Assoc.get? (entriesToJson fields) key with
  | some w =>
    rw [← keys_entriesToJson] at distinct
    exact Assoc.get?_insertAll_of_mem extra distinct (Assoc.mem_of_get? found)
  | none => exact Assoc.get?_insertAll_of_not_mem extra (Assoc.get?_eq_none_iff.mp found)

end Data

/-- A record does not list a field name twice. -/
def TypeDef.FieldsDistinct : TypeDef → Prop
  | .record declared => (declared.map Field.name).Nodup
  | _ => True

instance : (t : TypeDef) → Decidable t.FieldsDistinct
  | .record declared => inferInstanceAs (Decidable (declared.map Field.name).Nodup)
  | .enumeration .. | .union .. | .array _ | .alias _ => isTrue trivial

def Catalog.FieldsDistinct (c : Catalog) : Prop := ∀ p ∈ c.entries, p.2.type.FieldsDistinct

instance (c : Catalog) : Decidable c.FieldsDistinct :=
  inferInstanceAs (Decidable (∀ p ∈ c.entries, p.2.type.FieldsDistinct))

theorem Catalog.FieldsDistinct.record {c : Catalog} (distinct : c.FieldsDistinct) {name : String}
    {e : Entry} {declared : List Field} (entry : c.get? name = some e)
    (type : e.type = .record declared) : (declared.map Field.name).Nodup := by
  have h := distinct _ (Assoc.mem_of_get? entry)
  simpa only [type, TypeDef.FieldsDistinct] using h

theorem Decode.selectVariant_index {name : String} {discriminant : Option String}
    {variants : List Variant} {v : Json} {path : FieldPath} {index : Nat} {variant : Variant}
    {tag : Option Literal}
    (h : selectVariant name discriminant variants v path = .ok (index, variant, tag)) :
    variants[index]? = some variant := by
  have found {test : Variant × Nat → Bool} {p : Variant × Nat}
      (h : variants.zipIdx.find? test = some p) : variants[p.2]? = some p.1 := by
    simpa using List.mem_zipIdx_iff_getElem?.mp (List.mem_of_find?_eq_some h)
  revert h
  fun_cases selectVariant name discriminant variants v path
  case case3 selected =>
    intro h
    cases h
    obtain ⟨p, hp, eq⟩ := Option.map_eq_some_iff.mp selected
    cases eq
    exact found hp
  case case6 hp =>
    intro h
    cases h
    exact found hp
  all_goals
    intro h
    cases h

namespace Encode

/-- The encoders of the values inside a value. -/
def parts (c : Catalog) : Data → EncoderParts
  | .array items => { items := itemEncoders c items }
  | .map entries => { entries := entryEncoders c entries }
  | .record _ fields _ => { entries := entryEncoders c fields }
  | .union _ _ _ payload => { payload := some (value c payload) }
  | _ => {}

theorem value_eq (c : Catalog) (d : Data) : value c d = typeRef c d (parts c d) (c.size + 1) := by
  cases d <;> rfl

theorem itemEncoders_eq (c : Catalog) (items : List Data) :
    itemEncoders c items = items.map (value c) := by
  induction items with
  | nil => rfl
  | cons d rest ih => rw [itemEncoders, ih, List.map_cons]

theorem entryEncoders_eq (c : Catalog) (entries : List (String × Data)) :
    entryEncoders c entries = entries.map fun p => (p.1, value c p.2) := by
  induction entries with
  | nil => rfl
  | cons p rest ih =>
    obtain ⟨k, d⟩ := p
    rw [entryEncoders, ih, List.map_cons]

theorem get?_entryEncoders (c : Catalog) (entries : Assoc Data) (key : String) :
    Assoc.get? (entryEncoders c entries) key = (entries.get? key).map (value c) := by
  rw [entryEncoders_eq]
  exact Assoc.get?_mapValues (value c) entries key

/-- The variant that a value counts as without its union. -/
def bareVariant? (c : Catalog) (variants : List Variant) (d : Data) : Option Variant :=
  (d.typeName?.bind (variantNamed? c variants)).bind fun index => variants[index]?

/-- The type that a name hands a value on to as a whole. -/
def hop (c : Catalog) (d : Data) : TypeRef → Option TypeRef
  | .named name =>
    match c.get? name with
    | none => none
    | some e =>
      match e.type with
      | .alias t => some t
      | .union _ variants =>
        match d with
        | .union .. => none
        | d => (bareVariant? c variants d).map Variant.type
      | _ => none
  | _ => none

theorem hop_covered {c : Catalog} {d : Data} {t next : TypeRef} (h : hop c d t = some next) :
    t ∈ c.entries.keys.map TypeRef.named := by
  cases t with
  | named name =>
    have found : c.entries.contains name = true := by
      cases entry : c.get? name with
      | none => simp [hop, entry] at h
      | some e => exact Assoc.contains_iff_exists.mpr ⟨e, entry⟩
    exact List.mem_map_of_mem (Assoc.contains_iff_mem_keys.mp found)
  | _ => cases h

theorem typeRef_union {c : Catalog} {d : Data} {steps : Nat} {name : String} {e : Entry}
    {discriminant : Option String} {variants : List Variant} {path : FieldPath} {v : Json}
    (entry : c.get? name = some e) (type : e.type = .union discriminant variants)
    (bare : ∀ n g i p, d ≠ .union n g i p) :
    typeRef c d (parts c d) (steps + 1) (.named name) path = .ok v ↔
      ∃ variant, bareVariant? c variants d = some variant ∧
        typeRef c d (parts c d) steps variant.type path = .ok v := by
  have step : typeRef c d (parts c d) (steps + 1) (.named name) path =
      (d.typeName?.bind (variantNamed? c variants)).elim (wrongKind e.name d path) fun index =>
        (variants[index]?).elim (fail path (.variant e.name index)) fun variant =>
          typeRef c d (parts c d) steps variant.type path := by
    rw [typeRef]
    simp only [entry, type]
    cases d with
    | «union» n g i p => exact absurd rfl (bare n g i p)
    | _ =>
      dsimp only
      split
      · next none => rw [none, Option.elim_none]
      · next index some =>
        rw [some, Option.elim_some]
        split
        · next found => rw [found, Option.elim_some]
        · next found => rw [found, Option.elim_none]
  rw [step, bareVariant?]
  cases d.typeName?.bind (variantNamed? c variants) with
  | none => simp [wrongKind, fail]
  | some index =>
    simp only [Option.bind_some, Option.elim_some]
    cases variants[index]? with
    | none => simp [fail]
    | some variant => simp

theorem hop_union {c : Catalog} {d : Data} {name : String} {e : Entry}
    {discriminant : Option String} {variants : List Variant} (entry : c.get? name = some e)
    (type : e.type = .union discriminant variants) (bare : ∀ n g i p, d ≠ .union n g i p) :
    hop c d (.named name) = (bareVariant? c variants d).map Variant.type := by
  cases d with
  | «union» n g i p => exact absurd rfl (bare n g i p)
  | _ => simp only [hop, entry, type]

/-- At a type without a further name the number of steps does not count. -/
theorem typeRef_last {c : Catalog} {d : Data} {m : Nat} {t : TypeRef} {path : FieldPath} {v : Json}
    (stop : hop c d t = none) (h : typeRef c d (parts c d) m t path = .ok v) (k : Nat) :
    typeRef c d (parts c d) (k + 1) t path = .ok v := by
  cases t with
  | named name =>
    cases m with
    | zero => cases h
    | succ m =>
      cases entry : c.get? name with
      | none => simp [typeRef, entry, fail] at h
      | some e =>
        cases type : e.type with
        | «alias» t => simp [hop, entry, type] at stop
        | «union» discriminant variants =>
          by_cases bare : ∀ n g i p, d ≠ .union n g i p
          · obtain ⟨variant, eq, -⟩ := (typeRef_union entry type bare).mp h
            simp [hop_union entry type bare, eq] at stop
          · push Not at bare
            obtain ⟨n, g, i, p, rfl⟩ := bare
            rw [typeRef] at h ⊢
            simp only [entry, type, parts] at h ⊢
            exact h
        | _ =>
          rw [typeRef] at h ⊢
          simp only [entry, type] at h ⊢
          exact h
  | _ => cases m <;> exact h

/-- A type with a further name is written by one step more than what it leads to. -/
theorem typeRef_hop {c : Catalog} {d : Data} {m : Nat} {t next : TypeRef} {path : FieldPath}
    {v : Json} (found : hop c d t = some next) (h : typeRef c d (parts c d) m t path = .ok v) :
    ∃ k w, m = k + 1 ∧ typeRef c d (parts c d) k next path = .ok w ∧
      ∀ j, typeRef c d (parts c d) j next path = .ok w →
        typeRef c d (parts c d) (j + 1) t path = .ok v := by
  cases t with
  | named name =>
    cases m with
    | zero => cases h
    | succ m =>
      cases entry : c.get? name with
      | none => simp [typeRef, entry, fail] at h
      | some e =>
        cases type : e.type with
        | «alias» t =>
          simp only [hop, entry, type, Option.some.injEq] at found
          subst found
          rw [typeRef] at h
          simp only [entry, type] at h
          refine ⟨m, v, rfl, h, fun j hj => ?_⟩
          rw [typeRef]
          simpa only [entry, type] using hj
        | «union» discriminant variants =>
          by_cases bare : ∀ n g i p, d ≠ .union n g i p
          · obtain ⟨variant, eq, h⟩ := (typeRef_union entry type bare).mp h
            simp only [hop_union entry type bare, eq, Option.map_some,
              Option.some.injEq] at found
            subst found
            exact ⟨m, v, rfl, h, fun j hj =>
              (typeRef_union entry type bare).mpr ⟨variant, eq, hj⟩⟩
          · push Not at bare
            obtain ⟨n, g, i, p, rfl⟩ := bare
            simp [hop, entry, type] at found
        | _ => simp [hop, entry, type] at found
  | _ => cases found

/-- What can be written within any number of names can be written within the encoder's number. -/
theorem typeRef_bounded {c : Catalog} {d : Data} {steps : Nat} {t : TypeRef} {path : FieldPath}
    {v : Json} (h : typeRef c d (parts c d) steps t path = .ok v) :
    typeRef c d (parts c d) (c.size + 1) t path = .ok v := by
  have size : (c.entries.keys.map TypeRef.named).length = c.size := by
    simp [Assoc.keys, Catalog.size]
  rw [← size]
  exact Chain.search_bounded (fun steps t v => typeRef c d (parts c d) steps t path = .ok v)
    (fun _ _ => hop_covered) typeRef_last typeRef_hop h

/-- Fields that are written as members of one object, inserted over others. -/
theorem fields_ok {entries : Assoc Encoder} {declared : List Field} {path : FieldPath}
    {members : Assoc Json} (extra : Assoc Json)
    (each : ∀ f ∈ declared, ∀ entry, entries.get? f.name = some entry →
      ∃ v, members.get? f.name = some v ∧ entry f.type (path.pushKey f.name) = .ok v)
    (absent : ∀ f ∈ declared, entries.get? f.name = none → f.optional = true) :
    ∃ written, fields entries declared path extra = .ok (extra.insertAll written) ∧
      (∀ p ∈ written, members.get? p.1 = some p.2) ∧
      ∀ f ∈ declared, (entries.get? f.name).isSome → f.name ∈ written.map Prod.fst := by
  induction declared generalizing extra with
  | nil => exact ⟨[], rfl, nofun, nofun⟩
  | cons f declared ih =>
    rw [List.forall_mem_cons] at each absent
    cases found : entries.get? f.name with
    | some entry =>
      obtain ⟨v, hv, ok⟩ := each.1 entry found
      obtain ⟨written, rest, agree, covers⟩ := ih (extra.insert f.name v) each.2 absent.2
      refine ⟨(f.name, v) :: written, ?_, List.forall_mem_cons.mpr ⟨hv, agree⟩, ?_⟩
      · rw [fields, List.foldlM_cons, Outcome.bind_eq_ok]
        refine ⟨extra.insert f.name v, ?_, rest⟩
        simp only [found, ok]
        rfl
      · rw [List.forall_mem_cons]
        refine ⟨fun _ => List.mem_cons_self, fun g mem has => ?_⟩
        exact List.mem_cons_of_mem _ (covers g mem has)
    | none =>
      obtain ⟨written, rest, agree, covers⟩ := ih extra each.2 absent.2
      refine ⟨written, ?_, agree, ?_⟩
      · rw [fields, List.foldlM_cons, Outcome.bind_eq_ok]
        refine ⟨extra, ?_, rest⟩
        simp only [found, absent.1 found, if_true]
      · rw [List.forall_mem_cons]
        refine ⟨fun has => ?_, covers⟩
        rw [found] at has
        cases has

end Encode

theorem get?_undeclared (declared : List Field) (members : Assoc Json) (key : String) :
    (undeclared declared members).get? key =
      if Decode.declares declared key then none else members.get? key := by
  rw [undeclared, Assoc.get?_filter fun k => !Decode.declares declared k]
  cases Decode.declares declared key <;> rfl

theorem declares_iff {declared : List Field} {name : String} :
    Decode.declares declared name = true ↔ name ∈ declared.map Field.name := by
  simp [Decode.declares]

theorem Decode.primitive_inverse {p : Primitive} {v : Json} {path : FieldPath} {d : Data}
    (h : primitive p v path = .ok d) (other : FieldPath) :
    d.toJson = v ∧ Encode.primitive p d other = .ok v := by
  revert h
  fun_cases primitive p v path with
  | case3 n i eq =>
    intro h
    cases h
    have back := Number.ofInt64_of_toInt64? eq
    have json : Json.ofInt64 i = .number n := congrArg Json.number back
    exact ⟨json, congrArg Except.ok json⟩
  | case4 n none =>
    intro h
    cases h
  | case8 p v =>
    intro h
    cases h
  | _ =>
    intro h
    cases h
    exact ⟨rfl, rfl⟩

theorem Decode.literal_inverse {l : Literal} {v : Json} {path : FieldPath} {d : Data}
    (h : literal l v path = .ok d) (other : FieldPath) :
    d.toJson = v ∧ Encode.literal l d other = .ok v := by
  rw [literal] at h
  split at h
  · next accepts =>
    obtain ⟨json, written⟩ := primitive_inverse h other
    refine ⟨json, ?_⟩
    rw [Encode.literal, Outcome.bind_eq_ok]
    exact ⟨v, written, if_pos accepts⟩
  · cases h

namespace Catalog.Reads

variable {c : Catalog} {declared : List Field} {members : List (String × Json)}
  {read : List (String × Data)}

/-- The data that stands for a member, when a record's present fields are read one by one. -/
theorem get?_read (distinct : (declared.map Field.name).Nodup)
    (names : (presentFields declared members).map Field.name = read.map Prod.fst) {f : Field}
    (mem : f ∈ declared) {d : Data} (found : (Assoc.ofList read).get? f.name = some d) :
    ∃ p ∈ (presentFields declared members).zip read, p.1 = f ∧ p.2.2 = d := by
  have keys : (read.map Prod.fst).Nodup := by
    rw [← names]
    exact distinct.sublist (List.Sublist.map _ List.filter_sublist)
  have listed : f.name ∈ read.map Prod.fst := by
    by_contra absent
    rw [Assoc.ofList_eq_insertAll, Assoc.get?_insertAll_of_not_mem _ absent] at found
    cases found
  obtain ⟨q, hq, eq⟩ := List.mem_map.mp listed
  obtain ⟨f', both⟩ := Outcome.exists_mem_zip_right (Outcome.length_of_map_eq names) hq
  refine ⟨(f', q), both, ?_, ?_⟩
  · have present := (List.mem_filter.mp (List.of_mem_zip both).1).1
    have same : f'.name = f.name := (Outcome.eq_of_mem_zip names both).trans eq
    exact List.inj_on_of_nodup_map distinct present mem same
  · have eq' : Assoc.get? (Assoc.insertAll [] read) f.name = some q.2 :=
      Assoc.get?_insertAll_of_mem [] keys (by rw [← eq]; exact hq)
    rw [Assoc.ofList_eq_insertAll, eq', Option.some.injEq] at found
    exact found

theorem mem_keys_read
    (names : (presentFields declared members).map Field.name = read.map Prod.fst) {key : String} :
    key ∈ (Assoc.ofList read).keys ↔
      ∃ f, (f ∈ declared ∧ Assoc.contains members f.name = true) ∧ f.name = key := by
  rw [Assoc.ofList_eq_insertAll, Assoc.mem_keys_insertAll, ← names, List.mem_map]
  simp [presentFields, Assoc.keys]

/-- Members that were not read as a field are kept. -/
theorem get?_undeclared_of_unread
    (names : (presentFields declared members).map Field.name = read.map Prod.fst) {key : String}
    (unread : key ∉ (Assoc.ofList read).keys) :
    Assoc.get? (undeclared declared members) key = Assoc.get? members key := by
  rw [get?_undeclared]
  split
  · next known =>
    obtain ⟨f, mem, rfl⟩ := List.mem_map.mp (declares_iff.mp known)
    refine (Assoc.get?_eq_none_iff.mpr fun has => unread ?_).symm
    exact (mem_keys_read names).mpr ⟨f, ⟨mem, Assoc.contains_iff_mem_keys.mpr has⟩, rfl⟩
  · rfl

/-- A field that was read stands for the member of its name. -/
def FieldInverse (c : Catalog) (declared : List Field) (members : List (String × Json))
    (read : List (String × Data)) : Prop :=
  ∀ f ∈ declared, ∀ d, (Assoc.ofList read).get? f.name = some d →
    ∃ w, Assoc.get? members f.name = some w ∧ d.toJson = w ∧
      ∀ path, Encode.value c d f.type path = .ok w

section Record

variable (keys : Assoc.Sorted members)
  (names : (presentFields declared members).map Field.name = read.map Prod.fst)
  (inverse : FieldInverse c declared members read)

include keys names inverse

theorem toJson_record (name : String) :
    (Data.record name (Assoc.ofList read) (undeclared declared members)).toJson =
      .object members := by
  rw [Data.toJson, Data.entriesToJson_eq, Data.overlay_eq_insertAll]
  refine congrArg _ ((keys.filter _).insertAll_eq keys ?_ fun key absent => ?_)
  · rintro _ mem
    obtain ⟨⟨key, d⟩, entry, rfl⟩ := List.mem_map.mp mem
    obtain ⟨f, hf, rfl⟩ := (mem_keys_read names).mp (List.mem_map_of_mem entry)
    obtain ⟨w, hw, json, -⟩ := inverse f hf.1 d
      (Assoc.get?_of_mem (Assoc.sorted_ofList read).keys_nodup entry)
    exact json ▸ hw
  · exact get?_undeclared_of_unread names (by simpa [Assoc.keys] using absent)

theorem encode_record {name : String} {e : Entry} (entry : c.get? name = some e)
    (type : e.type = .record declared)
    (required : ∀ f ∈ declared, f.optional = false → Assoc.contains members f.name = true)
    (path : FieldPath) :
    Encode.value c (.record e.name (Assoc.ofList read) (undeclared declared members))
      (.named name) path = .ok (.object members) := by
  rw [Encode.value_eq, Encode.typeRef]
  simp only [entry, type, Encode.record, ne_eq, not_true_eq_false, if_false, Encode.parts]
  have known : (Assoc.ofList read).find? (fun p => !declared.any fun f => f.name == p.1) =
      none := by
    rw [List.find?_eq_none]
    rintro ⟨key, d⟩ mem
    obtain ⟨f, hf, rfl⟩ := (mem_keys_read names).mp (List.mem_map_of_mem mem)
    simpa using ⟨f, hf.1, rfl⟩
  have each (f) (mem : f ∈ declared) (encoder)
      (found : Assoc.get? (Encode.entryEncoders c (Assoc.ofList read)) f.name = some encoder) :
      ∃ w, Assoc.get? members f.name = some w ∧
        encoder f.type (path.pushKey f.name) = .ok w := by
    rw [Encode.get?_entryEncoders, Option.map_eq_some_iff] at found
    obtain ⟨d, found, rfl⟩ := found
    obtain ⟨w, hw, -, written⟩ := inverse f mem d found
    exact ⟨w, hw, written _⟩
  have absent (f) (mem : f ∈ declared)
      (missing : Assoc.get? (Encode.entryEncoders c (Assoc.ofList read)) f.name = none) :
      f.optional = true := by
    by_contra needed
    have has := required f mem (by simpa using needed)
    rw [Encode.get?_entryEncoders, Option.map_eq_none_iff, Assoc.get?_eq_none_iff] at missing
    exact missing ((mem_keys_read names).mpr ⟨f, ⟨mem, has⟩, rfl⟩)
  obtain ⟨written, ok, agree, covers⟩ :=
    Encode.fields_ok (undeclared declared members) each absent
  rw [known, Outcome.map_eq_ok]
  refine ⟨_, ok, congrArg _ ((keys.filter _).insertAll_eq keys agree fun key absent => ?_)⟩
  refine get?_undeclared_of_unread names fun mem => absent ?_
  obtain ⟨f, hf, rfl⟩ := (mem_keys_read names).mp mem
  refine covers f hf.1 ?_
  rw [Encode.get?_entryEncoders, Option.isSome_map]
  exact Assoc.contains_iff_mem_keys.mpr mem

end Record

end Catalog.Reads

/-- A reading is data whose JSON is the value, and which is written as the value again. -/
theorem Catalog.Reads.inverse {c : Catalog} (distinct : c.FieldsDistinct) {t : TypeRef} {v : Json}
    {d : Data} (h : c.Reads t v d) (sorted : v.Sorted) :
    d.toJson = v ∧ ∀ path, Encode.value c d t path = .ok v := by
  induction h with
  | primitive h =>
    refine ⟨(Decode.primitive_inverse h []).1, fun path => ?_⟩
    rw [Encode.value_eq]
    exact (Decode.primitive_inverse h path).2
  | literal h =>
    refine ⟨(Decode.literal_inverse h []).1, fun path => ?_⟩
    rw [Encode.value_eq]
    exact (Decode.literal_inverse h path).2
  | @array t items ds length each ih =>
    have each (p) (mem : p ∈ items.zip ds) :=
      ih p mem (Json.sorted_array.mp sorted _ (List.of_mem_zip mem).1)
    constructor
    · rw [Data.toJson, Data.itemsToJson_eq, ← List.map_id items]
      refine congrArg _ (Outcome.map_eq_map_iff.mpr ⟨length, fun p mem => ?_⟩).symm
      exact (each p mem).1.symm
    · intro path
      rw [Encode.value_eq]
      simp only [Encode.typeRef, Encode.array, Encode.parts, Outcome.map_eq_ok,
        Outcome.mapM_eq_ok, Encode.itemEncoders_eq]
      rw [List.zipIdx_map]
      refine ⟨items, List.forall₂_map_left_iff.mpr (Outcome.forall₂_zipIdx length.symm ?_ 0), rfl⟩
      intro p mem i
      have swapped : p.swap ∈ items.zip ds := by
        rw [← List.zip_swap]
        exact List.mem_map_of_mem mem
      exact (each _ swapped).2 _
  | @map t members entries keys each ih =>
    have length := Outcome.length_of_map_eq keys
    have each (p) (mem : p ∈ members.zip entries) :=
      ih p mem ((Json.sorted_object.mp sorted).2 _ (List.of_mem_zip mem).1)
    constructor
    · rw [Data.toJson, Data.entriesToJson_eq, ← List.map_id members]
      refine congrArg _ (Outcome.map_eq_map_iff.mpr ⟨length, fun p mem => ?_⟩).symm
      exact Prod.ext (Outcome.eq_of_mem_zip keys mem) (each p mem).1.symm
    · intro path
      rw [Encode.value_eq]
      simp only [Encode.typeRef, Encode.map, Encode.parts, Outcome.map_eq_ok, Outcome.mapM_eq_ok,
        Encode.entryEncoders_eq, List.forall₂_map_left_iff, Outcome.bind_eq_ok, Outcome.pure_eq_ok]
      refine ⟨members, (List.forall₂_iff_zip.mpr ⟨length, fun {p q} mem => ?_⟩).flip, rfl⟩
      exact ⟨p.2, (each _ mem).2 _, Prod.ext (Outcome.eq_of_mem_zip keys mem).symm rfl⟩
  | @record name e declared members read entry type required names each ih =>
    have nodup := distinct.record entry type
    obtain ⟨keys, sorted⟩ := Json.sorted_object.mp sorted
    have inverse : FieldInverse c declared members read := by
      intro f mem d found
      obtain ⟨p, both, rfl, rfl⟩ := get?_read nodup names mem found
      have present := (List.mem_filter.mp (List.of_mem_zip both).1).2
      obtain ⟨w, hw⟩ := Assoc.contains_iff_exists.mp present
      exact ⟨w, hw, ih p both w hw (sorted _ (Assoc.mem_of_get? hw))⟩
    exact ⟨toJson_record keys names inverse e.name,
      encode_record keys names inverse entry type required⟩
  | enumeration entry type h =>
    obtain ⟨l, literal, mem, rfl⟩ := Decode.enumeration_ok.mp h
    have json := Literal.toJson_of_ofJson? literal
    refine ⟨json, fun path => ?_⟩
    rw [Encode.value_eq, Encode.typeRef]
    simp only [entry, type, Encode.enumeration, if_pos mem, json]
  | arrayEntry entry type h ih =>
    obtain ⟨json, written⟩ := ih sorted
    refine ⟨json, fun path => ?_⟩
    have written := written path
    rw [Encode.value_eq] at written ⊢
    rw [Encode.typeRef]
    simp only [Encode.typeRef, entry, type] at written ⊢
    exact written
  | «alias» entry type h ih =>
    obtain ⟨json, written⟩ := ih sorted
    refine ⟨json, fun path => ?_⟩
    have written := written path
    rw [Encode.value_eq] at written ⊢
    refine @Encode.typeRef_bounded _ _ (c.size + 2) _ _ _ ?_
    rw [Encode.typeRef]
    simpa only [entry, type] using written
  | «union» entry type select h ih =>
    obtain ⟨json, written⟩ := ih sorted
    refine ⟨json, fun path => ?_⟩
    rw [Encode.value_eq, Encode.typeRef]
    simp only [entry, type, Encode.parts, Decode.selectVariant_index select]
    exact written path

/-- Decoding a value and encoding what was read gives the value back, and so does its plain JSON. -/
theorem Catalog.encode_decode {c : Catalog} (distinct : c.FieldsDistinct) {name : String} {v : Json}
    (sorted : v.Sorted) {d : Data} (h : c.decode name v = .ok d) :
    c.encode name d = .ok v ∧ d.toJson = v := by
  obtain ⟨json, written⟩ := (Catalog.decode_eq_ok_iff.mp h).inverse distinct sorted
  exact ⟨written [], json⟩

theorem Catalog.encode_decode_nested :
    let group : TypeDef := .record
      [⟨"items", .array (.named "Item"), false, none⟩, ⟨"name", .primitive .string, true, none⟩]
    let item : TypeDef := .union (some "kind")
      [⟨some (.string "group"), .named "Group", .object ["items", "kind"]⟩]
    let c : Catalog := ⟨[("Group", ⟨"Group", "", none, group⟩), ("Item", ⟨"Item", "", none, item⟩)]⟩
    let inner : Json := .object [("items", .array []), ("kind", .string "group")]
    let v : Json := .object
      [("items", .array [inner]), ("kind", .string "group"), ("order", .number (.ofInt64 7))]
    let d : Data := .record "Group"
      [("items", .array [.union "Item" (some (.string "group")) 0
        (.record "Group" [("items", .array [])] [("kind", .string "group")])])]
      [("kind", .string "group"), ("order", .number (.ofInt64 7))]
    c.decode "Group" v = .ok d ∧ c.encode "Group" d = .ok v ∧ d.toJson = v := by
  intro group item c inner v d
  have read : c.decode "Group" v = .ok d := by rfl
  exact ⟨read, Catalog.encode_decode (by decide) (by decide) read⟩

end TypedArchive
