import TypedArchive.Proofs.Emit.Written

/-! What emitted types read they write back: the serializers of the items, applied to what the
decoder has made of a value, give exactly that value. -/

namespace TypedArchive

namespace RecordReader

/-- What reading a member gives. -/
def Gives (r : RecordReader) (f : FieldRead) (x : Option EmittedValue) : Prop :=
  match r.members.get? f.key with
  | none => x = none ∧ f.optional = true
  | some (_, reader) => ∃ y, x = some y ∧ reader f.type (r.path.pushKey f.key) = .ok y

/-- Reading a member asks for its key, and changes nothing else. -/
theorem read_eq_ok {r : RecordReader} {f : FieldRead} {x : Option EmittedValue}
    (h : (r.read f).1 = .ok x) :
    r.Gives f x ∧ (r.read f).2 = { r with declared := f.key :: r.declared } := by
  rw [read_eq_call, call_eq] at h ⊢
  have asked := Outcome.mapError_eq_ok.mp h
  obtain ⟨absent, present, taken⟩ := MemberCall.ask_eq_ok asked
  rw [asked, taken]
  refine ⟨?_, rfl⟩
  rw [Gives]
  split
  · next found => exact absent found
  · next v reader found => exact present v reader found

/-- The members are read in order, each as if it were the first. -/
theorem go_eq_ok {r r' : RecordReader} {reads : List FieldRead}
    {before fields : List (String × Option EmittedValue)}
    (h : readAll.go r reads before = .ok (fields, r')) :
    r' = { r with declared := (reads.map FieldRead.key).reverse ++ r.declared } ∧
      ∃ given, fields = before ++ given ∧
        List.Forall₂ (fun f p => p.1 = f.key ∧ r.Gives f p.2) reads given := by
  induction reads generalizing r before with
  | nil =>
    cases h
    exact ⟨rfl, [], (List.append_nil fields).symm, .nil⟩
  | cons f reads ih =>
    rw [readAll.go] at h
    cases first : r.read f with
    | mk result next =>
      rw [first] at h
      cases result with
      | error e => cases h
      | ok x =>
        obtain ⟨gives, next⟩ := read_eq_ok (congrArg Prod.fst first)
        obtain rfl := (congrArg Prod.snd first).symm.trans next
        obtain ⟨rfl, given, rfl, rest⟩ := ih h
        exact ⟨by simp, (f.key, x) :: given, by simp, .cons ⟨rfl, gives⟩ rest⟩

/-- A record that is read has each member as its plan gives it, and keeps what was not asked for. -/
theorem readAll_eq_ok {r : RecordReader} {reads : List FieldRead} {x : EmittedValue}
    (h : r.readAll reads = .ok x) : ∃ fields,
      x = .record fields ((r.members.filter fun p =>
          !((reads.map FieldRead.key).reverse ++ r.declared).contains p.1).map
        fun p => (p.1, p.2.1)) ∧
      List.Forall₂ (fun f p => p.1 = f.key ∧ r.Gives f p.2) reads fields := by
  rw [readAll] at h
  cases all : readAll.go r reads [] with
  | error e =>
    rw [all] at h
    cases h
  | ok result =>
    obtain ⟨fields, r'⟩ := result
    rw [all] at h
    cases h
    obtain ⟨rfl, given, eq, each⟩ := go_eq_ok all
    obtain rfl : fields = given := eq
    exact ⟨fields, rfl, each⟩

end RecordReader

open Emit

namespace EmittedValue

theorem itemsToJson_eq (items : List EmittedValue) : itemsToJson items = items.map toJson := by
  induction items with
  | nil => rfl
  | cons x rest ih => rw [itemsToJson, ih, List.map_cons]

theorem entriesToJson_eq (entries : List (String × EmittedValue)) :
    entriesToJson entries = entries.map fun p => (p.1, p.2.toJson) := by
  induction entries with
  | nil => rfl
  | cons p rest ih =>
    obtain ⟨k, x⟩ := p
    rw [entriesToJson, ih, List.map_cons]

end EmittedValue

namespace Writer

variable {c : Catalog} {runtime : CodePath}

/-- The writers of the values inside a value. -/
def parts (c : Catalog) (runtime : CodePath) : EmittedValue → WriterParts
  | .list items => { items := items.map (value c runtime) }
  | .map entries => { entries := entries.map fun p => (p.1, value c runtime p.2) }
  | .record fields _ => { members := fields.map fun p => p.2.map (value c runtime) }
  | .variant _ payload => { payload := some (value c runtime payload) }
  | _ => {}

theorem itemWriters_eq (items : List EmittedValue) :
    itemWriters c runtime items = items.map (value c runtime) := by
  induction items with
  | nil => rfl
  | cons x rest ih => rw [itemWriters, ih, List.map_cons]

theorem entryWriters_eq (entries : List (String × EmittedValue)) :
    entryWriters c runtime entries = entries.map fun p => (p.1, value c runtime p.2) := by
  induction entries with
  | nil => rfl
  | cons p rest ih =>
    obtain ⟨k, x⟩ := p
    rw [entryWriters, ih, List.map_cons]

theorem memberWriters_eq (fields : List (String × Option EmittedValue)) :
    memberWriters c runtime fields = fields.map fun p => p.2.map (value c runtime) := by
  induction fields with
  | nil => rfl
  | cons p rest ih =>
    obtain ⟨k, x⟩ := p
    cases x <;> rw [memberWriters, ih, List.map_cons] <;> rfl

theorem value_eq (x : EmittedValue) :
    value c runtime x = write c runtime x (parts c runtime x) := by
  cases x <;> simp only [value, parts, itemWriters_eq, entryWriters_eq, memberWriters_eq]

variable {x : EmittedValue} {p : WriterParts} {v : Json}

theorem atType_mono {f g : String → Option Json}
    (names : ∀ name v, f name = some v → g name = some v) {t : EmittedType}
    (h : atType f x p t = some v) : atType g x p t = some v := by
  induction t with
  | named name => exact names name v h
  | boxed t ih => exact ih h
  | _ => exact h

/-- What is written within some number of names is written within any larger one. -/
theorem atName_mono {n m : Nat} (le : n ≤ m) {name : String} {v : Json}
    (h : atName c runtime x p n name = some v) : atName c runtime x p m name = some v := by
  induction m generalizing n name v with
  | zero =>
    obtain rfl := Nat.le_zero.mp le
    exact h
  | succ m ih =>
    cases n with
    | zero => cases h
    | succ n =>
      rw [atName] at h ⊢
      obtain ⟨e, entry, h⟩ := Option.bind_eq_some_iff.mp h
      refine Option.bind_eq_some_iff.mpr ⟨e, entry, ?_⟩
      cases plan : c.plan e with
      | same t =>
        rw [plan] at h
        exact atType_mono (fun name v h => ih (Nat.le_of_succ_le_succ le) h) h
      | _ => rwa [plan] at h

theorem value_of_steps {n : Nat} (le : n ≤ c.size + 1) {t : EmittedType}
    (h : atType (atName c runtime x (parts c runtime x) n) x (parts c runtime x) t = some v) :
    value c runtime x t = some v := by
  rw [value_eq]
  exact atType_mono (fun _ _ => atName_mono le) h

/-- An entry that is another spelling of a type is written as that type. -/
theorem atName_of_same {name : String} {e : Entry} {t : EmittedType} (entry : c.get? name = some e)
    (plan : c.plan e = .same t) (n : Nat) : atName c runtime x p (n + 1) name =
      atType (atName c runtime x p n) x p t := by
  rw [atName, entry, Option.bind_eq_bind, Option.bind_some, plan]

/-- A value of an entry's own type is written by the items of the entry. -/
theorem atName_of_serialize {name : String} {e : Entry} {items : List Item} {self : Held}
    (entry : c.get? name = some e) (emitted : c.items runtime e = .ok items)
    (own : ∀ t, c.plan e ≠ .same t) (holds : held runtime items (c.plan e) x p = some self)
    (written : serialize items self = some v) (n : Nat) :
    atName c runtime x p (n + 1) name = some v := by
  rw [atName, entry, Option.bind_eq_bind, Option.bind_some]
  cases plan : c.plan e with
  | same t => exact absurd plan (own t)
  | _ =>
    rw [plan] at holds
    simp only [emitted, Except.toOption, Option.bind_eq_bind, Option.bind_some, holds, written]

end Writer

/-- A value of an emitted type is written as some JSON, by the serializers of the items. -/
def Catalog.Writes (c : Catalog) (runtime : CodePath) (t : EmittedType) (x : EmittedValue)
    (v : Json) : Prop :=
  x.toJson = v ∧ Writer.value c runtime x t = some v

/-- A field of a record holds the member of an object, to be written as that member, or nothing
where there is none. -/
def Catalog.Keeps (c : Catalog) (runtime : CodePath) (owner : String) (members : Assoc Json)
    (f : Field) (p : String × Option EmittedValue) : Prop :=
  p.1 = f.name ∧ match members.get? f.name with
    | none => p.2 = none ∧ f.optional = true
    | some w => ∃ y, p.2 = some y ∧ c.Writes runtime (c.fieldRead owner f).type y w

/-- An object is made again of the members that are declared and of the others. -/
theorem Assoc.ofList_declared {α : Type} {members : Assoc α} (sorted : members.Sorted)
    (declared : List String) : Assoc.ofList
      ((declared.flatMap fun key => (members.get? key).toList.map fun v => (key, v)) ++
        members.filter fun p => !declared.contains p.1) = members := by
  refine sorted_nil.insertAll_eq sorted (fun p mem => ?_) fun key absent => ?_
  · rcases List.mem_append.mp mem with mem | mem
    · obtain ⟨key, -, mem⟩ := List.mem_flatMap.mp mem
      obtain ⟨v, present, rfl⟩ := List.mem_map.mp mem
      exact Option.mem_toList.mp present
    · exact get?_of_mem sorted.keys_nodup (List.mem_filter.mp mem).1
  · rw [get?_nil, eq_comm, get?_eq_none_iff]
    intro has
    obtain ⟨v, found⟩ := contains_iff_exists.mp (contains_iff_mem_keys.mpr has)
    refine absent (List.mem_map.mpr ⟨(key, v), List.mem_append.mpr ?_, rfl⟩)
    by_cases mem : key ∈ declared
    · exact .inl (List.mem_flatMap.mpr ⟨key, mem, by simp [found]⟩)
    · exact .inr (List.mem_filter.mpr ⟨mem_of_get? found, by simpa using mem⟩)

section Parts

variable {c : Catalog} {runtime : CodePath} {v : Json} (sorted : v.Sorted)
  (inner : ∀ w : Json, sizeOf w < sizeOf v → w.Sorted → ∀ t path x,
    Reader.value c.plans w t path = .ok x → c.Writes runtime t x w)

include sorted inner

theorem writes_list {t : EmittedType} {path : FieldPath} {x : EmittedValue}
    (h : Reader.list v (Reader.parts c.plans v).items t path = .ok x)
    (atName : String → Option Json) :
    x.toJson = v ∧ Writer.atType atName x (Writer.parts c runtime x) (.list t) = some v := by
  cases v with
  | array items =>
    simp only [Reader.list, Reader.parts, Reader.itemReaders_eq, Outcome.map_eq_ok,
      Outcome.mapM_eq_ok, List.zipIdx_map, List.forall₂_map_left_iff] at h
    obtain ⟨xs, each, rfl⟩ := h
    have writes : List.Forall₂ (fun w x => c.Writes runtime t x w) items xs := by
      rw [← List.zipIdx_map_fst 0 items, List.forall₂_map_left_iff]
      refine List.forall₂_iff_zip.mpr ⟨each.length_eq, fun {p x} mem => ?_⟩
      have listed : p.1 ∈ items := List.mem_of_getElem?
        (List.mem_zipIdx_iff_getElem?.mp (List.of_mem_zip mem).1)
      exact inner p.1 (Json.sizeOf_item listed) (Json.sorted_array.mp sorted p.1 listed) t _ _
        (List.forall₂_zip each mem)
    constructor
    · have eq : xs.map EmittedValue.toJson = items := by
        rw [← List.forall₂_eq_eq_eq, List.forall₂_map_left_iff]
        exact (writes.imp fun w x h => h.1).flip
      rw [EmittedValue.toJson, EmittedValue.itemsToJson_eq, eq]
    · have each : (xs.map (Writer.value c runtime)).mapM (fun write => write t) = some items := by
        rw [Outcome.mapM_eq_some, List.forall₂_map_left_iff]
        exact (writes.imp fun w x h => h.2).flip
      rw [Writer.atType, Writer.parts, each]
      rfl
  | _ => cases h

theorem writes_map {t : EmittedType} {path : FieldPath} {x : EmittedValue}
    (h : Reader.map v ((Reader.parts c.plans v).members.map fun p => (p.1, p.2.2)) t path = .ok x)
    (atName : String → Option Json) :
    x.toJson = v ∧ Writer.atType atName x (Writer.parts c runtime x) (.map t) = some v := by
  cases v with
  | object members =>
    obtain ⟨keys, values⟩ := Json.sorted_object.mp sorted
    simp only [Reader.map, Reader.parts, Reader.memberReaders_eq, Assoc.mapValues, List.map_map,
      Outcome.map_eq_ok, Outcome.mapM_eq_ok, List.forall₂_map_left_iff, Function.comp_apply,
      Outcome.bind_eq_ok, Outcome.pure_eq_ok] at h
    obtain ⟨entries, each, rfl⟩ := h
    have writes :
        List.Forall₂ (fun p q => q.1 = p.1 ∧ c.Writes runtime t q.2 p.2) members entries := by
      refine List.forall₂_iff_zip.mpr ⟨each.length_eq, fun {p q} mem => ?_⟩
      have listed := (List.of_mem_zip mem).1
      obtain ⟨y, read, eq⟩ := List.forall₂_zip each mem
      subst eq
      exact ⟨rfl, inner p.2 (Json.sizeOf_member listed) (values p listed) t _ _ read⟩
    constructor
    · have eq : entries.map (fun q => (q.1, q.2.toJson)) = members := by
        rw [← List.forall₂_eq_eq_eq, List.forall₂_map_left_iff]
        exact (writes.imp fun p q h => Prod.ext h.1 h.2.1).flip
      rw [EmittedValue.toJson, EmittedValue.entriesToJson_eq, eq]
    · have each : (entries.map fun q => (q.1, Writer.value c runtime q.2)).mapM
          (fun p => do return (p.1, ← p.2 t)) = some members := by
        rw [Outcome.mapM_eq_some, List.forall₂_map_left_iff]
        refine (writes.imp fun p q h => ?_).flip
        change (do return (q.1, ← Writer.value c runtime q.2 t)) = some p
        rw [h.2.2, h.1]
        rfl
      rw [Writer.atType, Writer.parts, each, Option.bind_eq_bind, Option.bind_some, keys.ofList_eq]
      rfl
  | _ => cases h

/-- The members of a record that is read are those of the object, one by one. -/
theorem writes_members {e : Entry} {declared : List Field} {members : List (String × Json)}
    (object : v = .object members) {path : FieldPath} {x : EmittedValue}
    (h : RecordReader.readAll { members := Reader.memberReaders c.plans members, path }
      (declared.map (c.fieldRead e.name)) = .ok x) : ∃ fields,
      x = .record fields (members.filter fun p => !(declared.map Field.name).contains p.1) ∧
      List.Forall₂ (c.Keeps runtime e.name members) declared fields := by
  subst object
  obtain ⟨fields, rfl, each⟩ := RecordReader.readAll_eq_ok h
  refine ⟨fields, ?_, (List.forall₂_map_left_iff.mp each).imp fun f p gives => ⟨gives.1, ?_⟩⟩
  · simp [Reader.memberReaders_eq, Assoc.mapValues, List.filter_map, Function.comp_def,
      Catalog.fieldRead]
  · have given := gives.2
    rw [RecordReader.Gives, Reader.memberReaders_eq, Assoc.get?_mapValues,
      show (c.fieldRead e.name f).key = f.name from rfl] at given
    cases found : Assoc.get? members f.name with
    | none =>
      rw [found] at given
      exact given
    | some w =>
      rw [found] at given
      obtain ⟨y, eq, read⟩ := given
      exact ⟨y, eq, inner w (Json.sizeOf_get? found)
        ((Json.sorted_object.mp sorted).2 _ (Assoc.mem_of_get? found)) _ _ _ read⟩

omit sorted inner in
/-- The fields of a record as the two ways of writing have them. -/
theorem written_of_keeps {owner : String} {members : Assoc Json} {declared : List Field}
    {fields : List (String × Option EmittedValue)}
    (keeps : List.Forall₂ (c.Keeps runtime owner members) declared fields) :
    EmittedValue.fieldsToJson fields =
        (declared.flatMap fun f => (members.get? f.name).toList.map fun v => (f.name, v)) ∧
      List.Forall₂ (fun p w => (match p.2 with
          | some write => (write p.1.type).map some
          | none => some none : Option (Option Json)) = some w)
        ((declared.map (c.fieldRead owner)).zip
          (fields.map fun p => p.2.map (Writer.value c runtime)))
        (declared.map fun f => members.get? f.name) := by
  induction keeps with
  | nil => exact ⟨rfl, .nil⟩
  | @cons f p declared fields first _ ih =>
    obtain ⟨json, each⟩ := ih
    obtain ⟨key, x⟩ := p
    obtain ⟨rfl, gives⟩ := first
    rw [List.flatMap_cons, ← json]
    cases found : members.get? f.name with
    | none =>
      rw [found] at gives
      obtain ⟨rfl, -⟩ := gives
      exact ⟨rfl, .cons (congrArg some found.symm) each⟩
    | some w =>
      rw [found] at gives
      obtain ⟨y, rfl, eq, written⟩ := gives
      refine ⟨?_, .cons ?_ each⟩
      · rw [EmittedValue.fieldsToJson, eq]
        rfl
      · exact (congrArg (Option.map some) written).trans (congrArg some found.symm)

theorem writes_record (unclashed : c.unclashed runtime = true) {name : String} {e : Entry}
    {declared : List Field} (entry : c.get? name = some e) (type : e.type = .record declared)
    {n : Nat} {path : FieldPath} {x : EmittedValue}
    (h : Reader.atName c.plans v (Reader.parts c.plans v) (n + 1) name path = .ok x) :
    x.toJson = v ∧ Writer.atName c runtime x (Writer.parts c runtime x) (n + 1) name = some v := by
  rw [Reader.atName] at h
  simp only [Catalog.get?_plans, entry, Option.map_some, Catalog.plan, type] at h
  cases object : v with
  | object members =>
    subst object
    obtain ⟨fields, rfl, keeps⟩ := writes_members sorted inner rfl h
    obtain ⟨json, written⟩ := written_of_keeps keeps
    have whole := Assoc.ofList_declared (Json.sorted_object.mp sorted).1 (declared.map Field.name)
    rw [List.flatMap_map] at whole
    refine ⟨by rw [EmittedValue.toJson, json, whole], ?_⟩
    have plan : c.plan e = .record (declared.map (c.fieldRead e.name)) := by rw [Catalog.plan, type]
    have emitted : c.items runtime e = .ok (recordItems runtime e.name (documentation e.description)
        declared (declared.map (c.fieldRead e.name))) := by
      rw [Catalog.items]
      simp only [type]
    have distinct : ((named declared).map fun p => identifier p.1).Nodup := by
      have names := c.declared_nodup unclashed entry emitted List.mem_cons_self
      rw [declared_recordItems runtime rfl] at names
      exact names.of_append_left
    have optional (f : Field) (mem : f ∈ declared) (absent : Assoc.get? members f.name = none) :
        (c.fieldRead e.name f).optional = true := by
      obtain ⟨p, pair⟩ := Outcome.exists_mem_zip keeps.length_eq mem
      have gives := (List.forall₂_zip keeps pair).2
      rw [absent] at gives
      exact gives.2
    have all := congrArg (fun m => some (Json.object m)) whole
    refine Writer.atName_of_serialize entry emitted (by simp [plan]) ?_
      ((serialize_recordItems distinct optional).trans all) n
    rw [plan, Writer.held, readMembers_recordItems, Writer.parts]
    exact congrArg (· >>= _) (Outcome.mapM_eq_some.mpr written)
  | _ =>
    subst object
    cases h

end Parts

namespace Reader

/-- The first of the variants that passes a test stands at the index that is told with it. -/
theorem exists_of_find?_zipIdx {α : Type} {variants : List Variant} {told : Variant → α}
    {test : (α × EmittedType) × Nat → Bool} {a : α} {t : EmittedType} {index : Nat}
    (found : (variants.map fun w => (told w, EmittedType.ofRef w.type)).zipIdx.find? test =
      some ((a, t), index)) : ∃ w, variants[index]? = some w ∧ t = .ofRef w.type := by
  have listed := List.mem_zipIdx_iff_getElem?.mp (List.mem_of_find?_eq_some found)
  rw [List.getElem?_map] at listed
  obtain ⟨w, chosen, eq⟩ := Option.map_eq_some_iff.mp listed
  exact ⟨w, chosen, (congrArg Prod.snd eq).symm⟩

theorem exists_of_selectShaped {variants : List Variant} {name : String} {v : Json}
    {path : FieldPath} {index : Nat} {t : EmittedType}
    (h : selectShaped name (variants.map fun w => (w.shape, .ofRef w.type)) v path =
      .ok (index, t)) : ∃ w, variants[index]? = some w ∧ t = .ofRef w.type := by
  rw [selectShaped] at h
  split at h
  · next shape t index found =>
    cases h
    exact exists_of_find?_zipIdx found
  · cases h

theorem exists_of_selectTagged {variants : List Variant} {name discriminant : String} {v : Json}
    {path : FieldPath} {index : Nat} {t : EmittedType}
    (h : selectTagged name discriminant (variants.map fun w => (w.tag, .ofRef w.type)) v path =
      .ok (index, t)) : ∃ w, variants[index]? = some w ∧ t = .ofRef w.type := by
  obtain ⟨raw, -, h⟩ := Outcome.bind_eq_ok.mp h
  split at h
  · next tag t index found =>
    cases h
    exact exists_of_find?_zipIdx found
  · cases h

end Reader

section Entry

variable {c : Catalog} {runtime : CodePath} {name : String} {e : Entry} {v : Json} {p : WriterParts}
  (entry : c.get? name = some e)

include entry

section Enumeration

variable {values : List Literal} {descriptions : List String}
  (type : e.type = .enumeration values descriptions)

include type

omit entry in
theorem items_of_text {texts : List String} (all : enumTexts? values = some texts)
    (some : values ≠ []) : c.items runtime e = .ok (textEnumItems runtime e.name
      (documentation e.description)
      (((enumNames values descriptions).map identifier).zip texts)) := by
  have isEmpty : values.isEmpty = false := List.isEmpty_eq_false_iff.mpr some
  rw [Catalog.items]
  simp only [type, isEmpty, Bool.false_eq_true, if_false, all]

omit entry in
theorem items_of_literals (mixed : enumTexts? values = none) (some : values ≠ []) :
    c.items runtime e = .ok (literalEnumItems runtime e.name (documentation e.description)
      (((enumNames values descriptions).map identifier).zip values)) := by
  have isEmpty : values.isEmpty = false := List.isEmpty_eq_false_iff.mpr some
  rw [Catalog.items]
  simp only [type, isEmpty, Bool.false_eq_true, if_false, mixed]

theorem writes_text (unclashed : c.unclashed runtime = true) {texts : List String}
    (all : enumTexts? values = some texts) {s : String} (mem : s ∈ texts) (n : Nat) :
    Writer.atName c runtime (.member (.string s)) p (n + 1) name = some (.string s) := by
  have some : values ≠ [] := by
    rintro rfl
    cases all
    cases mem
  have emitted : c.items runtime e = _ := items_of_text type all some
  have second := map_snd_enumVariants values descriptions
    (Outcome.mapM_eq_some.mp all).length_eq.symm
  have distinct := c.declared_nodup unclashed entry emitted List.mem_cons_self
  rw [Item.declared, List.map_map] at distinct
  obtain ⟨variant, listed, made⟩ := variantOf_textEnumItems runtime e.name
    (documentation e.description) (second.symm ▸ mem)
  have plan : c.plan e = .textEnum texts := by rw [Catalog.plan, type]; simp only [all]
  refine Writer.atName_of_serialize entry emitted (by simp [plan]) ?_
    (serialize_textEnumItems distinct listed) n
  rw [plan, Writer.held, made]
  rfl

theorem writes_literal (unclashed : c.unclashed runtime = true) (mixed : enumTexts? values = none)
    {l : Literal} (mem : l ∈ values) (n : Nat) :
    Writer.atName c runtime (.member l) p (n + 1) name = some l.toJson := by
  have emitted : c.items runtime e = _ := items_of_literals type mixed (List.ne_nil_of_mem mem)
  have second := map_snd_enumVariants values descriptions rfl
  have distinct := c.declared_nodup unclashed entry emitted List.mem_cons_self
  rw [Item.declared, List.map_map] at distinct
  obtain ⟨variant, listed, made⟩ := variantOf_literalEnumItems runtime e.name
    (documentation e.description) (second.symm ▸ mem)
  have plan : c.plan e = .literalEnum values := by rw [Catalog.plan, type]; simp only [mixed]
  refine Writer.atName_of_serialize entry emitted (by simp [plan]) ?_
    (serialize_literalEnumItems distinct listed) n
  rw [plan, Writer.held, made]
  rfl

theorem writes_enumeration (unclashed : c.unclashed runtime = true) {n : Nat} {path : FieldPath}
    {x : EmittedValue}
    (h : Reader.atName c.plans v (Reader.parts c.plans v) (n + 1) name path = .ok x) :
    x.toJson = v ∧ Writer.atName c runtime x (Writer.parts c runtime x) (n + 1) name = some v := by
  rw [Reader.atName] at h
  cases texts : enumTexts? values with
  | some listed =>
    simp only [Catalog.get?_plans, entry, Option.map_some, Catalog.plan, type, texts] at h
    cases v with
    | string s =>
      simp only [Reader.string] at h
      split at h
      · next mem =>
        cases h
        exact ⟨rfl, writes_text entry type unclashed texts mem n⟩
      · cases h
    | _ => cases h
  | none =>
    simp only [Catalog.get?_plans, entry, Option.map_some, Catalog.plan, type, texts] at h
    split at h
    · next l found =>
      cases h
      have accepts := List.find?_some (p := fun l : Literal => v.same l.toJson) found
      rw [Json.same_toJson, Literal.accepts, beq_iff_eq] at accepts
      have json := Literal.toJson_of_ofJson? accepts
      exact ⟨json, json ▸ writes_literal entry type unclashed texts
        (List.mem_of_find?_eq_some found) n⟩
    · cases h

end Enumeration

theorem writes_union {discriminant : Option String} {variants : List Variant}
    (type : e.type = .union discriminant variants) {index : Nat} {w : Variant}
    (chosen : variants[index]? = some w) {y : EmittedValue}
    (written : Writer.value c runtime y (.ofRef w.type) = some v) (n : Nat) :
    Writer.atName c runtime (.variant index y) (Writer.parts c runtime (.variant index y)) (n + 1)
      name = some v := by
  have emitted := c.items_of_union type (List.ne_nil_of_mem (List.mem_of_getElem? chosen)) runtime
  obtain ⟨lt, -⟩ := List.getElem?_eq_some_iff.mp chosen
  have paired : index < (((unionNames variants).map identifier).zip
      (variants.map fun w => EmittedType.ofRef w.type)).length := by
    simpa [length_unionNames] using lt
  obtain ⟨item, declared, listed⟩ := exists_declaredVariant runtime e.name
    (documentation e.description)
    (unionBody runtime e.name discriminant variants ((unionNames variants).map identifier)) paired
  have plan (t : EmittedType) : c.plan e ≠ .same t := by
    cases discriminant <;> simp [Catalog.plan, type]
  refine Writer.atName_of_serialize entry emitted plan ?_ (serialize_unionItems listed v) n
  cases discriminant <;>
    simp [Catalog.plan, type, Writer.held, Writer.parts, chosen, declared, written]

section HandedOn

variable {n : Nat} (next : ∀ t path x,
    Reader.atType (Reader.atName c.plans v (Reader.parts c.plans v) n) v (Reader.parts c.plans v) t
      path = .ok x →
    x.toJson = v ∧ Writer.atType (Writer.atName c runtime x (Writer.parts c runtime x) n) x
      (Writer.parts c runtime x) t = some v)

include next

theorem writes_same {t : EmittedType} (plan : c.plan e = .same t) {path : FieldPath}
    {x : EmittedValue}
    (h : Reader.atName c.plans v (Reader.parts c.plans v) (n + 1) name path = .ok x) :
    x.toJson = v ∧ Writer.atName c runtime x (Writer.parts c runtime x) (n + 1) name = some v := by
  rw [Reader.atName] at h
  simp only [Catalog.get?_plans, entry, Option.map_some, plan] at h
  rw [Writer.atName_of_same entry plan]
  exact next t path x h

theorem writes_variant {discriminant : Option String} {variants : List Variant}
    (type : e.type = .union discriminant variants) (le : n ≤ c.size + 1) {path : FieldPath}
    {x : EmittedValue}
    (h : Reader.atName c.plans v (Reader.parts c.plans v) (n + 1) name path = .ok x) :
    x.toJson = v ∧ Writer.atName c runtime x (Writer.parts c runtime x) (n + 1) name = some v := by
  -- the payload is the same value, and writing it starts the count of names anew
  have chosen {index : Nat} {t : EmittedType}
      (w : ∃ w, variants[index]? = some w ∧ t = .ofRef w.type)
      (h : EmittedValue.variant index <$> Reader.atType
        (Reader.atName c.plans v (Reader.parts c.plans v) n) v (Reader.parts c.plans v) t path =
          .ok x) : x.toJson = v ∧
      Writer.atName c runtime x (Writer.parts c runtime x) (n + 1) name = some v := by
    obtain ⟨y, read, rfl⟩ := Outcome.map_eq_ok.mp h
    obtain ⟨w, found, rfl⟩ := w
    obtain ⟨json, written⟩ := next _ path y read
    exact ⟨json, writes_union entry type found (Writer.value_of_steps le written) n⟩
  rw [Reader.atName] at h
  cases discriminant with
  | none =>
    simp only [Catalog.get?_plans, entry, Option.map_some, Catalog.plan, type] at h
    split at h
    · cases h
    · next index t selected => exact chosen (Reader.exists_of_selectShaped selected) h
  | some key =>
    simp only [Catalog.get?_plans, entry, Option.map_some, Catalog.plan, type] at h
    split at h
    · cases h
    · next index t selected => exact chosen (Reader.exists_of_selectTagged selected) h

end HandedOn

end Entry

section Value

variable {c : Catalog} {runtime : CodePath} {v : Json} (sorted : v.Sorted)
  (inner : ∀ w : Json, sizeOf w < sizeOf v → w.Sorted → ∀ t path x,
    Reader.value c.plans w t path = .ok x → c.Writes runtime t x w)

include sorted inner

/-- A value that is read as a type is written as that type, given that it is for the names that it
is handed on to. -/
theorem writes_type {n : Nat} (names : ∀ name path x,
      Reader.atName c.plans v (Reader.parts c.plans v) n name path = .ok x →
      x.toJson = v ∧ Writer.atName c runtime x (Writer.parts c runtime x) n name = some v)
    {t : EmittedType} {path : FieldPath} {x : EmittedValue}
    (h : Reader.atType (Reader.atName c.plans v (Reader.parts c.plans v) n) v
      (Reader.parts c.plans v) t path = .ok x) :
    x.toJson = v ∧ Writer.atType (Writer.atName c runtime x (Writer.parts c runtime x) n) x
      (Writer.parts c runtime x) t = some v := by
  induction t with
  | named name => exact names name path x h
  | boxed t ih => exact ih h
  | list t => exact writes_list sorted inner h _
  | map t => exact writes_map sorted inner h _
  | json =>
    cases h
    exact ⟨rfl, rfl⟩
  | integer =>
    obtain ⟨i, read, rfl⟩ := Outcome.map_eq_ok.mp h
    cases v with
    | number k =>
      rw [Reader.integer] at read
      split at read
      · next i found =>
        cases read
        have eq : Json.ofInt64 i = .number k :=
          congrArg Json.number (Number.ofInt64_of_toInt64? found)
        exact ⟨eq, congrArg some eq⟩
      · cases read
    | _ => cases read
  | _ =>
    obtain ⟨a, read, rfl⟩ := Outcome.map_eq_ok.mp h
    cases v <;> cases read
    exact ⟨rfl, rfl⟩

theorem writes_name (unclashed : c.unclashed runtime = true) {n : Nat} (le : n ≤ c.size + 1)
    {name : String} {path : FieldPath} {x : EmittedValue}
    (h : Reader.atName c.plans v (Reader.parts c.plans v) n name path = .ok x) :
    x.toJson = v ∧ Writer.atName c runtime x (Writer.parts c runtime x) n name = some v := by
  induction n generalizing name path x with
  | zero => cases h
  | succ n ih =>
    have lower : n ≤ c.size + 1 := Nat.le_of_succ_le le
    have next (t : EmittedType) (path : FieldPath) (x : EmittedValue)
        (h : Reader.atType (Reader.atName c.plans v (Reader.parts c.plans v) n) v
          (Reader.parts c.plans v) t path = .ok x) :=
      writes_type sorted inner (fun _ _ _ h => ih lower h) h
    cases entry : c.get? name with
    | none =>
      rw [Reader.atName] at h
      simp [Catalog.get?_plans, entry] at h
    | some e =>
      cases type : e.type with
      | record => exact writes_record sorted inner unclashed entry type h
      | enumeration => exact writes_enumeration entry type unclashed h
      | array t =>
        have plan : c.plan e = .same (.list (.ofRef t)) := by rw [Catalog.plan, type]
        exact writes_same entry next plan h
      | «alias» t =>
        have plan : c.plan e = .same (.ofRef t) := by rw [Catalog.plan, type]
        exact writes_same entry next plan h
      | «union» => exact writes_variant entry next type lower h

end Value

theorem Reader.writes_of_value {c : Catalog} {runtime : CodePath}
    (unclashed : c.unclashed runtime = true) {v : Json} (sorted : v.Sorted) {t : EmittedType}
    {path : FieldPath} {x : EmittedValue} (h : value c.plans v t path = .ok x) :
    c.Writes runtime t x v := by
  induction size : sizeOf v using Nat.strong_induction_on generalizing v t path x with
  | h n ih =>
    subst size
    have inner (w : Json) (lt : sizeOf w < sizeOf v) (sorted : w.Sorted) (t : EmittedType)
        (path : FieldPath) (x : EmittedValue) (h : value c.plans w t path = .ok x) :
        c.Writes runtime t x w := ih _ lt sorted h rfl
    have length : c.plans.length = c.size := List.length_map _
    rw [value_eq, length] at h
    have written := writes_type sorted inner
      (fun name path x => writes_name sorted inner unclashed (Nat.le_refl _)) h
    exact ⟨written.1, Writer.value_of_steps (Nat.le_refl _) written.2⟩

/-- What the decoder of an emitted type makes of a value is written by the emitted serializer as
exactly that value, at any nesting, where no emitted type has two members of one name. -/
theorem EmittedType.encode_of_decode {c : Catalog} {runtime : CodePath}
    (unclashed : c.unclashed runtime = true) {name : String} {v : Json} (sorted : v.Sorted)
    {path : FieldPath} {x : EmittedValue}
    (decoded : EmittedType.decode c.plans (.named name) v path = .ok x) :
    EmittedType.encode c runtime (.named name) x = some v ∧ x.toJson = v := by
  have read : Reader.value c.plans v (.named name) path = .ok x := Outcome.mapError_eq_ok.mp decoded
  obtain ⟨json, written⟩ := Reader.writes_of_value unclashed sorted read
  exact ⟨written, json⟩

set_option maxRecDepth 100000 in
/-- A record with renamed members, an optional member that is null and one that is absent, members
of both kinds of enum, a union inside and a key that the schema does not know. -/
theorem EmittedType.encode_of_decode_nested :
    let field (key : String) (t : TypeRef) (optional : Bool) : Field := ⟨key, t, optional, none⟩
    let entry (name : String) (t : TypeDef) : String × Entry := (name, ⟨name, name, none, t⟩)
    let c : Catalog := ⟨[
      entry "Kind" (.enumeration [.string "a", .integer 1] []),
      entry "Mode" (.enumeration [.string "on", .string "off"] []),
      entry "Node" (.record [field "extra_data" (.named "Kind") false,
        field "mode" (.named "Mode") false, field "next" (.named "Tree") true,
        field "note" (.primitive .null) true, field "type" (.literal (.string "node")) false]),
      entry "Tree" (.union (some "type") [⟨some (.string "node"), .named "Node", .any⟩])]⟩
    let inside : Json := .object [("extra_data", .string "a"), ("mode", .string "off"),
      ("type", .string "node")]
    let v : Json := .object [("extra_data", .ofInt64 1), ("mode", .string "on"), ("next", inside),
      ("note", .null), ("type", .string "node"), ("unknown", .array [.bool true])]
    let runtime := CodePath.of ["runtime"]
    c.unclashed runtime = true ∧ v.Sorted ∧ ∃ x,
      EmittedType.decode c.plans (.named "Tree") v [] = .ok x ∧
      EmittedType.encode c runtime (.named "Tree") x = some v ∧ x.toJson = v := by
  intro field entry c inside v runtime
  have unclashed : c.unclashed runtime = true := by decide +kernel
  have sorted : v.Sorted := by decide +kernel
  have accepts : (EmittedType.decode c.plans (.named "Tree") v []).isOk = true := by decide +kernel
  obtain ⟨x, decoded⟩ := Outcome.exists_of_isOk accepts
  exact ⟨unclashed, sorted, x, decoded, EmittedType.encode_of_decode unclashed sorted decoded⟩

end TypedArchive
