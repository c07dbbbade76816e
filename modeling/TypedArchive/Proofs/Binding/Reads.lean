import Mathlib.Data.List.Induction
import TypedArchive.Binding.Decode
import TypedArchive.Proofs.Assoc
import TypedArchive.Proofs.Chain
import TypedArchive.Proofs.Outcome

/-! What it means that a value reads as a type, without paths and without a bound on the names that
are entered. Decoding finds exactly these readings. -/

namespace TypedArchive

theorem Json.sizeOf_item {v : Json} {items : List Json} (h : v ∈ items) :
    sizeOf v < sizeOf (Json.array items) := by
  have := List.sizeOf_lt_of_mem h
  rw [Json.array.sizeOf_spec]
  omega

theorem Json.sizeOf_member {p : String × Json} {members : List (String × Json)} (h : p ∈ members) :
    sizeOf p.2 < sizeOf (Json.object members) := by
  have := List.sizeOf_lt_of_mem h
  obtain ⟨k, v⟩ := p
  rw [Prod.mk.sizeOf_spec] at this
  rw [Json.object.sizeOf_spec]
  change sizeOf v < _
  omega

theorem Json.sizeOf_get? {v : Json} {key : String} {members : List (String × Json)}
    (h : Assoc.get? members key = some v) : sizeOf v < sizeOf (Json.object members) :=
  Json.sizeOf_member (Assoc.mem_of_get? h)

/-- The declared fields that an object has, in order. -/
def presentFields (declared : List Field) (members : Assoc Json) : List Field :=
  declared.filter fun f => members.contains f.name

/-- The members of an object that no field declares. -/
def undeclared (declared : List Field) (members : Assoc Json) : Assoc Json :=
  members.filter fun p => !Decode.declares declared p.1

namespace Catalog

/-- A value reads as a type and gives some data. -/
inductive Reads (c : Catalog) : TypeRef → Json → Data → Prop
  | primitive {p : Primitive} {v : Json} {d : Data} (h : Decode.primitive p v [] = .ok d) :
      Reads c (.primitive p) v d
  | literal {l : Literal} {v : Json} {d : Data} (h : Decode.literal l v [] = .ok d) :
      Reads c (.literal l) v d
  | array {t : TypeRef} {items : List Json} {ds : List Data} (length : items.length = ds.length)
      (each : ∀ p ∈ items.zip ds, Reads c t p.1 p.2) : Reads c (.array t) (.array items) (.array ds)
  | map {t : TypeRef} {members : List (String × Json)} {entries : List (String × Data)}
      (keys : members.map Prod.fst = entries.map Prod.fst)
      (each : ∀ p ∈ members.zip entries, Reads c t p.1.2 p.2.2) :
      Reads c (.map t) (.object members) (.map entries)
  | record {name : String} {e : Entry} {declared : List Field} {members : List (String × Json)}
      {read : List (String × Data)} (entry : c.get? name = some e)
      (type : e.type = .record declared)
      (required : ∀ f ∈ declared, f.optional = false → Assoc.contains members f.name = true)
      (names : (presentFields declared members).map Field.name = read.map Prod.fst)
      (each : ∀ p ∈ (presentFields declared members).zip read,
        ∀ w, Assoc.get? members p.1.name = some w → Reads c p.1.type w p.2.2) :
      Reads c (.named name) (.object members)
        (.record e.name (Assoc.ofList read) (undeclared declared members))
  | enumeration {name : String} {e : Entry} {values : List Literal} {descriptions : List String}
      {v : Json} {d : Data} (entry : c.get? name = some e)
      (type : e.type = .enumeration values descriptions)
      (h : Decode.enumeration e.name values v [] = .ok d) : Reads c (.named name) v d
  | arrayEntry {name : String} {e : Entry} {t : TypeRef} {v : Json} {d : Data}
      (entry : c.get? name = some e) (type : e.type = .array t) (h : Reads c (.array t) v d) :
      Reads c (.named name) v d
  | alias {name : String} {e : Entry} {t : TypeRef} {v : Json} {d : Data}
      (entry : c.get? name = some e) (type : e.type = .alias t) (h : Reads c t v d) :
      Reads c (.named name) v d
  | union {name : String} {e : Entry} {discriminant : Option String} {variants : List Variant}
      {v : Json} {index : Nat} {variant : Variant} {tag : Option Literal} {d : Data}
      (entry : c.get? name = some e) (type : e.type = .union discriminant variants)
      (select : Decode.selectVariant e.name discriminant variants v [] = .ok (index, variant, tag))
      (h : Reads c variant.type v d) : Reads c (.named name) v (.union e.name tag index d)

end Catalog

namespace Decode

theorem primitive_ok {p : Primitive} {v : Json} {path : FieldPath} {d : Data}
    (h : primitive p v path = .ok d) (other : FieldPath) : primitive p v other = .ok d := by
  revert h
  fun_cases primitive p v path <;> simp_all [primitive, mismatch]

theorem literal_ok {l : Literal} {v : Json} {path : FieldPath} {d : Data}
    (h : literal l v path = .ok d) (other : FieldPath) : literal l v other = .ok d := by
  rw [literal] at h ⊢
  split at h
  · next accepts =>
    rw [if_pos accepts]
    exact primitive_ok h other
  · cases h

theorem enumeration_ok {name : String} {values : List Literal} {v : Json} {path : FieldPath}
    {d : Data} : enumeration name values v path = .ok d ↔
      ∃ l, Literal.ofJson? v = some l ∧ l ∈ values ∧ d = .enumeration name l := by
  rw [enumeration]
  cases Literal.ofJson? v with
  | none => simp [mismatch]
  | some l =>
    by_cases mem : l ∈ values
    · simp [mem, eq_comm]
    · simp only [if_neg mem]
      split <;> simp [mismatch, mem]

theorem selectVariant_ok {name : String} {discriminant : Option String} {variants : List Variant}
    {v : Json} {path : FieldPath} {r : Nat × Variant × Option Literal}
    (h : selectVariant name discriminant variants v path = .ok r) (other : FieldPath) :
    selectVariant name discriminant variants v other = .ok r := by
  revert h
  fun_cases selectVariant name discriminant variants v path <;>
    simp_all [selectVariant, mismatch]

/-- The decoders of the values inside a value. -/
def parts (c : Catalog) : Json → DecoderParts
  | .array items => { items := itemDecoders c items }
  | .object members => { members := memberDecoders c members }
  | _ => {}

theorem value_eq (c : Catalog) (v : Json) : value c v = typeRef c v (parts c v) (c.size + 1) := by
  cases v <;> rfl

theorem itemDecoders_eq (c : Catalog) (items : List Json) :
    itemDecoders c items = items.map (value c) := by
  induction items with
  | nil => rfl
  | cons v rest ih => rw [itemDecoders, ih, List.map_cons]

theorem memberDecoders_eq (c : Catalog) (members : List (String × Json)) :
    memberDecoders c members = members.map fun p => (p.1, value c p.2) := by
  induction members with
  | nil => rfl
  | cons p rest ih =>
    obtain ⟨k, v⟩ := p
    rw [memberDecoders, ih, List.map_cons]

theorem get?_memberDecoders (c : Catalog) (members : Assoc Json) (key : String) :
    Assoc.get? (memberDecoders c members) key = (members.get? key).map (value c) := by
  rw [memberDecoders_eq]
  exact Assoc.get?_mapValues (value c) members key

theorem contains_memberDecoders (c : Catalog) (members : Assoc Json) (key : String) :
    Assoc.contains (memberDecoders c members) key = members.contains key := by
  have h := congrArg Option.isSome (get?_memberDecoders c members key)
  rwa [Option.isSome_map] at h

/-- The type that a name hands a value on to as a whole. -/
def hop (c : Catalog) (v : Json) : TypeRef → Option TypeRef
  | .named name =>
    match c.get? name with
    | none => none
    | some e =>
      match e.type with
      | .alias t => some t
      | .union discriminant variants =>
        match selectVariant e.name discriminant variants v [] with
        | .ok (_, variant, _) => some variant.type
        | .error _ => none
      | _ => none
  | _ => none

theorem hop_covered {c : Catalog} {v : Json} {t next : TypeRef} (h : hop c v t = some next) :
    t ∈ c.entries.keys.map TypeRef.named := by
  cases t with
  | named name =>
    have found : c.entries.contains name = true := by
      cases entry : c.get? name with
      | none => simp [hop, entry] at h
      | some e => exact Assoc.contains_iff_exists.mpr ⟨e, entry⟩
    exact List.mem_map_of_mem (Assoc.contains_iff_mem_keys.mp found)
  | _ => cases h

/-- At a type without a further name the number of steps does not count. -/
theorem typeRef_last {c : Catalog} {v : Json} {parts : DecoderParts} {m : Nat} {t : TypeRef}
    {path : FieldPath} {d : Data} (stop : hop c v t = none)
    (h : typeRef c v parts m t path = .ok d) (k : Nat) :
    typeRef c v parts (k + 1) t path = .ok d := by
  cases t with
  | named name =>
    cases m with
    | zero => cases h
    | succ m =>
      rw [typeRef] at h ⊢
      cases entry : c.get? name with
      | none => simp [entry] at h
      | some e =>
        simp only [entry] at h ⊢
        cases type : e.type with
        | «alias» t => simp [hop, entry, type] at stop
        | «union» discriminant variants =>
          simp only [type] at h
          obtain ⟨⟨index, variant, tag⟩, select, -⟩ := Outcome.bind_eq_ok.mp h
          simp [hop, entry, type, selectVariant_ok select []] at stop
        | _ => simpa only [type] using h
  | _ => cases m <;> exact h

/-- A type with a further name is read by one step more than what it leads to. -/
theorem typeRef_hop {c : Catalog} {v : Json} {parts : DecoderParts} {m : Nat} {t next : TypeRef}
    {path : FieldPath} {d : Data} (found : hop c v t = some next)
    (h : typeRef c v parts m t path = .ok d) :
    ∃ k d', m = k + 1 ∧ typeRef c v parts k next path = .ok d' ∧
      ∀ j, typeRef c v parts j next path = .ok d' → typeRef c v parts (j + 1) t path = .ok d := by
  cases t with
  | named name =>
    cases m with
    | zero => cases h
    | succ m =>
      rw [typeRef] at h
      cases entry : c.get? name with
      | none => simp [entry] at h
      | some e =>
        simp only [entry] at h
        cases type : e.type with
        | «alias» t =>
          simp only [hop, entry, type, Option.some.injEq] at found
          subst found
          simp only [type] at h
          refine ⟨m, d, rfl, h, fun j hj => ?_⟩
          rw [typeRef]
          simpa only [entry, type] using hj
        | «union» discriminant variants =>
          simp only [type] at h
          obtain ⟨⟨index, variant, tag⟩, select, h⟩ := Outcome.bind_eq_ok.mp h
          simp only [hop, entry, type, selectVariant_ok select [], Option.some.injEq] at found
          subst found
          obtain ⟨inner, h, eq⟩ := Outcome.bind_eq_ok.mp h
          refine ⟨m, inner, rfl, h, fun j hj => ?_⟩
          rw [typeRef]
          simp only [entry, type]
          exact Outcome.bind_eq_ok.mpr ⟨_, select, Outcome.bind_eq_ok.mpr ⟨inner, hj, eq⟩⟩
        | _ => simp [hop, entry, type] at found
  | _ => cases found

/-- What can be read within any number of names can be read within the decoder's number. -/
theorem typeRef_bounded {c : Catalog} {v : Json} {parts : DecoderParts} {steps : Nat} {t : TypeRef}
    {path : FieldPath} {d : Data} (h : typeRef c v parts steps t path = .ok d) :
    typeRef c v parts (c.size + 1) t path = .ok d := by
  have size : (c.entries.keys.map TypeRef.named).length = c.size := by
    simp [Assoc.keys, Catalog.size]
  rw [← size]
  exact Chain.search_bounded (fun steps t d => typeRef c v parts steps t path = .ok d)
    (fun _ _ => hop_covered) typeRef_last typeRef_hop h

theorem fields_concat (members : Assoc Decoder) (declared : List Field) (f : Field)
    (path : FieldPath) : fields members (declared ++ [f]) path = (do
      let read ← fields members declared path
      match members.get? f.name with
      | some member => do return read ++ [(f.name, ← member f.type (path.pushKey f.name))]
      | none => if f.optional then .ok read else .error (.missingField (path.pushKey f.name))) := by
  rw [fields, List.foldlM_append]
  refine congrArg _ (funext fun read => ?_)
  rw [List.foldlM_cons]
  exact bind_pure _

/-- The declared fields read when those that must be there are there and each present one reads. -/
theorem fields_ok {members : Assoc Decoder} {declared : List Field} {path : FieldPath}
    {read : List (String × Data)} :
    fields members declared path = .ok read ↔
      (∀ f ∈ declared, f.optional = false → members.contains f.name = true) ∧
      List.Forall₂ (fun f p => p.1 = f.name ∧ ∃ member, members.get? f.name = some member ∧
        member f.type (path.pushKey f.name) = .ok p.2)
        (declared.filter fun f => members.contains f.name) read := by
  induction declared using List.reverseRecOn generalizing read with
  | nil =>
    rw [fields, List.foldlM_nil, Outcome.pure_eq_ok, List.filter_nil, List.forall₂_nil_left_iff]
    simp only [List.not_mem_nil, false_implies, implies_true, true_and]
    exact eq_comm
  | append_singleton declared f ih =>
    rw [fields_concat, Outcome.bind_eq_ok]
    simp only [ih, List.filter_append, List.mem_append, List.mem_singleton, or_imp, forall_and,
      forall_eq]
    cases found : members.get? f.name with
    | some member =>
      have has : members.contains f.name = true := Assoc.contains_iff_exists.mpr ⟨member, found⟩
      simp only [List.filter_cons, has, if_true, List.filter_nil, implies_true, and_true,
        Outcome.bind_eq_ok, Outcome.pure_eq_ok]
      constructor
      · rintro ⟨init, ⟨required, each⟩, d, hd, rfl⟩
        exact ⟨required, Outcome.forall₂_concat.mpr
          ⟨init, _, each, ⟨rfl, member, found, hd⟩, rfl⟩⟩
      · rintro ⟨required, each⟩
        obtain ⟨init, ⟨_, d⟩, h, ⟨rfl, member', eq, hd⟩, rfl⟩ := Outcome.forall₂_concat.mp each
        obtain rfl : member = member' := Option.some.inj (found.symm.trans eq)
        exact ⟨init, ⟨required, h⟩, d, hd, rfl⟩
    | none =>
      have has : members.contains f.name = false := by
        rw [Bool.eq_false_iff]
        intro has
        obtain ⟨member, eq⟩ := Assoc.contains_iff_exists.mp has
        rw [found] at eq
        cases eq
      cases optional : f.optional <;> simp [has]

section Sound

variable {c : Catalog} {v : Json} (inner : ∀ w, sizeOf w < sizeOf v → ∀ t path d,
  value c w t path = .ok d → c.Reads t w d)

include inner

theorem reads_of_array {t : TypeRef} {path : FieldPath} {d : Data}
    (h : array v (parts c v).items t path = .ok d) : c.Reads (.array t) v d := by
  cases v with
  | array items =>
    simp only [array, parts, Outcome.map_eq_ok, Outcome.mapM_eq_ok, itemDecoders_eq] at h
    obtain ⟨ds, each, rfl⟩ := h
    have length := each.length_eq
    rw [List.length_zipIdx, List.length_map] at length
    refine .array length fun p mem => ?_
    obtain ⟨i, lt, rfl⟩ := List.mem_iff_getElem.mp mem
    rw [List.length_zip, ← length, Nat.min_self] at lt
    have read := each.get (i := i) (by simpa using lt) (by rwa [← length])
    simp only [List.get_eq_getElem, List.getElem_zipIdx, List.getElem_map] at read
    rw [List.getElem_zip]
    exact inner _ (Json.sizeOf_item (List.getElem_mem lt)) _ _ _ read
  | _ => cases h

theorem reads_of_map {t : TypeRef} {path : FieldPath} {d : Data}
    (h : map v (parts c v).members t path = .ok d) : c.Reads (.map t) v d := by
  cases v with
  | object members =>
    simp only [map, parts, Outcome.map_eq_ok, Outcome.mapM_eq_ok, memberDecoders_eq,
      List.forall₂_map_left_iff, Outcome.bind_eq_ok, Outcome.pure_eq_ok] at h
    obtain ⟨entries, each, rfl⟩ := h
    refine .map ?_ fun p mem => ?_
    · refine Outcome.map_eq_map_iff.mpr ⟨each.length_eq, fun p mem => ?_⟩
      obtain ⟨_, -, eq⟩ := List.forall₂_zip each mem
      rw [← eq]
    · obtain ⟨d, hd, eq⟩ := (List.forall₂_iff_zip.mp each).2 mem
      rw [← eq]
      exact inner _ (Json.sizeOf_member (List.of_mem_zip mem).1) _ _ _ hd
  | _ => cases h

theorem reads_of_record {name : String} {e : Entry} {declared : List Field} {path : FieldPath}
    {d : Data} (entry : c.get? name = some e) (type : e.type = .record declared)
    (h : record e.name declared v (parts c v).members path = .ok d) :
    c.Reads (.named name) v d := by
  cases v with
  | object members =>
    simp only [record, parts, Outcome.bind_eq_ok, Outcome.pure_eq_ok, fields_ok,
      contains_memberDecoders, get?_memberDecoders] at h
    obtain ⟨read, ⟨required, each⟩, rfl⟩ := h
    refine .record entry type required ?_ fun p mem w found => ?_
    · exact List.forall₂_eq_eq_eq ▸ List.forall₂_map_left_iff.mpr
        (List.forall₂_map_right_iff.mpr (each.imp fun f p h => h.1.symm))
    · obtain ⟨-, member, eq, hd⟩ := (List.forall₂_iff_zip.mp each).2 mem
      rw [found, Option.map_some, Option.some.injEq] at eq
      subst eq
      exact inner w (Json.sizeOf_get? found) _ _ _ hd
  | _ => cases h

theorem reads_of_typeRef {steps : Nat} {t : TypeRef} {path : FieldPath} {d : Data}
    (h : typeRef c v (parts c v) steps t path = .ok d) : c.Reads t v d := by
  induction steps generalizing t d with
  | zero =>
    cases t with
    | primitive p => exact .primitive (primitive_ok h [])
    | literal l => exact .literal (literal_ok h [])
    | array t => exact reads_of_array inner h
    | map t => exact reads_of_map inner h
    | named name => cases h
  | succ steps ih =>
    cases t with
    | primitive p => exact .primitive (primitive_ok h [])
    | literal l => exact .literal (literal_ok h [])
    | array t => exact reads_of_array inner h
    | map t => exact reads_of_map inner h
    | named name =>
      rw [typeRef] at h
      cases entry : c.get? name with
      | none => simp [entry] at h
      | some e =>
        simp only [entry] at h
        cases type : e.type with
        | record declared =>
          simp only [type] at h
          exact reads_of_record inner entry type h
        | enumeration values descriptions =>
          simp only [type] at h
          exact .enumeration entry type (enumeration_ok.mpr (enumeration_ok.mp h))
        | array t =>
          simp only [type] at h
          exact .arrayEntry entry type (reads_of_array inner h)
        | «alias» t =>
          simp only [type] at h
          exact .alias entry type (ih h)
        | «union» discriminant variants =>
          simp only [type] at h
          obtain ⟨⟨index, variant, tag⟩, select, h⟩ := Outcome.bind_eq_ok.mp h
          obtain ⟨inner, read, eq⟩ := Outcome.bind_eq_ok.mp h
          cases eq
          exact .union entry type (selectVariant_ok select []) (ih read)

end Sound

theorem reads_of_value {c : Catalog} {v : Json} {t : TypeRef} {path : FieldPath} {d : Data}
    (h : value c v t path = .ok d) : c.Reads t v d := by
  induction size : sizeOf v using Nat.strong_induction_on generalizing v t path d with
  | h n ih =>
    subst size
    rw [value_eq] at h
    exact reads_of_typeRef (fun w lt t path d h => ih _ lt h rfl) h

/-- A longer way through the names is as good, by the bound on chains of names. -/
theorem value_of_steps {c : Catalog} {v : Json} {t : TypeRef} {path : FieldPath} {d : Data}
    (h : typeRef c v (parts c v) (c.size + 2) t path = .ok d) : value c v t path = .ok d := by
  rw [value_eq]
  exact typeRef_bounded h

theorem value_of_reads {c : Catalog} {v : Json} {t : TypeRef} {d : Data} (h : c.Reads t v d)
    (path : FieldPath) : value c v t path = .ok d := by
  induction h generalizing path with
  | primitive h =>
    rw [value_eq]
    exact primitive_ok h path
  | literal h =>
    rw [value_eq]
    exact literal_ok h path
  | @array t items ds length each ih =>
    rw [value_eq]
    simp only [typeRef, array, parts, Outcome.map_eq_ok, Outcome.mapM_eq_ok, itemDecoders_eq]
    rw [List.zipIdx_map]
    refine ⟨ds, List.forall₂_map_left_iff.mpr (Outcome.forall₂_zipIdx length ?_ 0), rfl⟩
    exact fun p mem i => ih p mem _
  | @map t members entries keys each ih =>
    have length := Outcome.length_of_map_eq keys
    rw [value_eq]
    simp only [typeRef, map, parts, Outcome.map_eq_ok, Outcome.mapM_eq_ok, memberDecoders_eq,
      List.forall₂_map_left_iff, Outcome.bind_eq_ok, Outcome.pure_eq_ok]
    refine ⟨entries, List.forall₂_iff_zip.mpr ⟨length, fun {p q} mem => ?_⟩, rfl⟩
    exact ⟨q.2, ih _ mem _, Prod.ext (Outcome.eq_of_mem_zip keys mem) rfl⟩
  | @record name e declared members read entry type required names each ih =>
    have length := Outcome.length_of_map_eq names
    apply value_of_steps
    rw [typeRef]
    simp only [entry, type, record, parts, Outcome.bind_eq_ok, Outcome.pure_eq_ok, fields_ok,
      contains_memberDecoders, get?_memberDecoders]
    refine ⟨read, ⟨required, List.forall₂_iff_zip.mpr ⟨length, fun {f p} mem => ?_⟩⟩, rfl⟩
    have present := (List.mem_filter.mp (List.of_mem_zip mem).1).2
    obtain ⟨w, found⟩ := Assoc.contains_iff_exists.mp present
    refine ⟨(Outcome.eq_of_mem_zip names mem).symm, value c w, ?_, ih _ mem w found _⟩
    rw [found, Option.map_some]
  | enumeration entry type h =>
    apply value_of_steps
    rw [typeRef]
    simp only [entry, type]
    exact enumeration_ok.mpr (enumeration_ok.mp h)
  | arrayEntry entry type h ih =>
    apply value_of_steps
    rw [typeRef]
    simp only [entry, type]
    have read := ih path
    rwa [value_eq, typeRef] at read
  | «alias» entry type h ih =>
    apply value_of_steps
    rw [typeRef]
    simp only [entry, type]
    rw [← value_eq]
    exact ih path
  | «union» entry type select h ih =>
    apply value_of_steps
    rw [typeRef]
    simp only [entry, type]
    refine Outcome.bind_eq_ok.mpr ⟨_, selectVariant_ok select path, ?_⟩
    refine Outcome.bind_eq_ok.mpr ⟨_, ?_, rfl⟩
    rw [← value_eq]
    exact ih path

end Decode

theorem Catalog.decode_eq_ok_iff {c : Catalog} {name : String} {v : Json} {d : Data} :
    c.decode name v = .ok d ↔ c.Reads (.named name) v d :=
  ⟨Decode.reads_of_value, fun h => Decode.value_of_reads h []⟩

end TypedArchive
