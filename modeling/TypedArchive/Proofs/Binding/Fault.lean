import TypedArchive.Proofs.Binding.Reads
import TypedArchive.Proofs.Json.Place

/-! Where decoding fails: an error is raised by one check on one value, and that value stands inside
the decoded one at the place that the error's path tells. -/

namespace TypedArchive

namespace Catalog

/-- Every entry stands under its own name. -/
def Keyed (c : Catalog) : Prop := ∀ p ∈ c.entries, p.2.name = p.1

theorem Keyed.name_eq {c : Catalog} (keyed : c.Keyed) {name : String} {e : Entry}
    (entry : c.get? name = some e) : e.name = name :=
  keyed _ (Assoc.mem_of_get? entry)

/-- A check on a value itself, and not on a part of it, finds that the value does not fit a type. -/
inductive Refuses (c : Catalog) : TypeRef → Json → FieldPath → DecodeError → Prop
  | primitive {p : Primitive} {v : Json} {path : FieldPath} {err : DecodeError}
      (h : Decode.primitive p v path = .error err) : Refuses c (.primitive p) v path err
  | literal {l : Literal} {v : Json} {path : FieldPath} {err : DecodeError}
      (h : Decode.literal l v path = .error err) : Refuses c (.literal l) v path err
  | array {t : TypeRef} {v : Json} {path : FieldPath} (kind : ∀ items, v ≠ .array items) :
      Refuses c (.array t) v path (.typeMismatch path "array" v.kind)
  | map {t : TypeRef} {v : Json} {path : FieldPath} (kind : ∀ members, v ≠ .object members) :
      Refuses c (.map t) v path (.typeMismatch path "object" v.kind)
  /-- The name has no entry, or the names that the value goes through run in a circle. -/
  | unknown {name : String} {v : Json} {path : FieldPath} :
      Refuses c (.named name) v path (.unknownType path name)
  | kind {name : String} {e : Entry} {declared : List Field} {v : Json} {path : FieldPath}
      (entry : c.get? name = some e) (type : e.type = .record declared)
      (kind : ∀ members, v ≠ .object members) :
      Refuses c (.named name) v path (.typeMismatch path "object" v.kind)
  | missing {name : String} {e : Entry} {declared : List Field} {f : Field}
      {members : List (String × Json)} {path : FieldPath} (entry : c.get? name = some e)
      (type : e.type = .record declared) (mem : f ∈ declared) (required : f.optional = false)
      (absent : Assoc.get? members f.name = none) :
      Refuses c (.named name) (.object members) path (.missingField (path.pushKey f.name))
  | enumeration {name : String} {e : Entry} {values : List Literal} {descriptions : List String}
      {v : Json} {path : FieldPath} {err : DecodeError} (entry : c.get? name = some e)
      (type : e.type = .enumeration values descriptions)
      (h : Decode.enumeration e.name values v path = .error err) :
      Refuses c (.named name) v path err
  | variant {name : String} {e : Entry} {discriminant : Option String} {variants : List Variant}
      {v : Json} {path : FieldPath} {err : DecodeError} (entry : c.get? name = some e)
      (type : e.type = .union discriminant variants)
      (h : Decode.selectVariant e.name discriminant variants v path = .error err) :
      Refuses c (.named name) v path err

/-- Some value inside a value is refused, at the place that stands behind the path so far. -/
def RefusesWithin (c : Catalog) (v : Json) (path : FieldPath) (err : DecodeError) : Prop :=
  ∃ place w t, v.at? place = some w ∧ c.Refuses t w (path ++ place) err

variable {c : Catalog} {path : FieldPath} {err : DecodeError}

theorem Refuses.within {t : TypeRef} {v : Json} (h : c.Refuses t v path err) :
    c.RefusesWithin v path err := by
  refine ⟨[], v, t, rfl, ?_⟩
  rwa [List.append_nil]

theorem RefusesWithin.key {members : List (String × Json)} {key : String} {w : Json}
    (found : Assoc.get? members key = some w) (h : c.RefusesWithin w (path.pushKey key) err) :
    c.RefusesWithin (.object members) path err := by
  obtain ⟨place, inner, t, leads, refuses⟩ := h
  refine ⟨.key key :: place, inner, t, (Json.at?_key found place).trans leads, ?_⟩
  rwa [FieldPath.pushKey, List.append_assoc] at refuses

theorem RefusesWithin.index {items : List Json} {i : Nat} {w : Json} (found : items[i]? = some w)
    (h : c.RefusesWithin w (path.pushIndex i) err) : c.RefusesWithin (.array items) path err := by
  obtain ⟨place, inner, t, leads, refuses⟩ := h
  refine ⟨.index i :: place, inner, t, (Json.at?_index found place).trans leads, ?_⟩
  rwa [FieldPath.pushIndex, List.append_assoc] at refuses

end Catalog

namespace Decode

/-- The fields of a record are not read when one that must be there is missing, or when one that is
there is not read. -/
theorem fields_eq_error {members : Assoc Decoder} {declared : List Field} {path : FieldPath}
    {err : DecodeError} (h : fields members declared path = .error err) : ∃ f ∈ declared,
      (members.get? f.name = none ∧ f.optional = false ∧ err = .missingField (path.pushKey f.name)) ∨
      ∃ member, members.get? f.name = some member ∧
        member f.type (path.pushKey f.name) = .error err := by
  induction declared using List.reverseRecOn with
  | nil => cases h
  | append_singleton declared f ih =>
    rw [fields_concat] at h
    rcases Outcome.bind_eq_error.mp h with before | ⟨read, -, h⟩
    · obtain ⟨f', mem, cause⟩ := ih before
      exact ⟨f', List.mem_append_left _ mem, cause⟩
    · refine ⟨f, List.mem_append_right _ List.mem_cons_self, ?_⟩
      cases found : members.get? f.name with
      | none =>
        rw [found] at h
        dsimp only at h
        split at h
        · cases h
        · next needed =>
          cases h
          exact .inl ⟨rfl, by simpa using needed, rfl⟩
      | some member =>
        rw [found] at h
        rcases Outcome.bind_eq_error.mp h with fails | ⟨d, -, h⟩
        · exact .inr ⟨member, rfl, fails⟩
        · cases h

section Fault

variable {c : Catalog} {v : Json} (sorted : v.Sorted) (inner : ∀ w, sizeOf w < sizeOf v →
  w.Sorted → ∀ t path err, value c w t path = .error err → c.RefusesWithin w path err)

include sorted inner

theorem refuses_of_array {t : TypeRef} {path : FieldPath} {err : DecodeError}
    (h : array v (parts c v).items t path = .error err) : c.RefusesWithin v path err := by
  cases v with
  | array items =>
    rw [array, parts, itemDecoders_eq] at h
    rcases Outcome.bind_eq_error.mp h with h | ⟨_, -, h⟩
    · obtain ⟨⟨item, i⟩, mem, fails⟩ := Outcome.exists_of_mapM_eq_error h
      rw [List.mem_zipIdx_iff_getElem?, List.getElem?_map] at mem
      obtain ⟨w, found, rfl⟩ := Option.map_eq_some_iff.mp mem
      have listed : w ∈ items := List.mem_of_getElem? found
      exact .index found (inner w (Json.sizeOf_item listed)
        (Json.sorted_array.mp sorted w listed) _ _ _ fails)
    · cases h
  | _ =>
    cases h
    exact Catalog.Refuses.within (t := .array t) (.array fun _ h => by cases h)

theorem refuses_of_map {t : TypeRef} {path : FieldPath} {err : DecodeError}
    (h : map v (parts c v).members t path = .error err) : c.RefusesWithin v path err := by
  cases v with
  | object members =>
    rw [map, parts, memberDecoders_eq] at h
    rcases Outcome.bind_eq_error.mp h with h | ⟨_, -, h⟩
    · obtain ⟨_, mem, fails⟩ := Outcome.exists_of_mapM_eq_error h
      obtain ⟨⟨key, w⟩, listed, rfl⟩ := List.mem_map.mp mem
      obtain ⟨keys, values⟩ := Json.sorted_object.mp sorted
      rcases Outcome.bind_eq_error.mp fails with fails | ⟨_, -, h⟩
      · exact .key (Assoc.get?_of_mem keys.keys_nodup listed)
          (inner w (Json.sizeOf_member listed) (values _ listed) _ _ _ fails)
      · cases h
    · cases h
  | _ =>
    cases h
    exact Catalog.Refuses.within (t := .map t) (.map fun _ h => by cases h)

theorem refuses_of_record {name : String} {e : Entry} {declared : List Field} {path : FieldPath}
    {err : DecodeError} (entry : c.get? name = some e) (type : e.type = .record declared)
    (h : record e.name declared v (parts c v).members path = .error err) :
    c.RefusesWithin v path err := by
  cases v with
  | object members =>
    rw [record, parts] at h
    rcases Outcome.bind_eq_error.mp h with h | ⟨_, -, h⟩
    · obtain ⟨f, mem, ⟨absent, required, rfl⟩ | ⟨member, found, fails⟩⟩ := fields_eq_error h
      · rw [get?_memberDecoders, Option.map_eq_none_iff] at absent
        exact (Catalog.Refuses.missing entry type mem required absent).within
      · rw [get?_memberDecoders] at found
        obtain ⟨w, present, rfl⟩ := Option.map_eq_some_iff.mp found
        have listed := Assoc.mem_of_get? present
        exact .key present (inner w (Json.sizeOf_get? present)
          ((Json.sorted_object.mp sorted).2 _ listed) _ _ _ fails)
    · cases h
  | _ =>
    cases h
    exact Catalog.Refuses.within (t := .named name) (.kind entry type fun _ h => by cases h)

theorem refuses_of_typeRef {steps : Nat} {t : TypeRef} {path : FieldPath} {err : DecodeError}
    (h : typeRef c v (parts c v) steps t path = .error err) : c.RefusesWithin v path err := by
  revert h
  fun_induction typeRef c v (parts c v) steps t path with
  | case1 steps p path => exact fun h => (Catalog.Refuses.primitive h).within
  | case2 steps l path => exact fun h => (Catalog.Refuses.literal h).within
  | case3 steps t path => exact refuses_of_array sorted inner
  | case4 steps t path => exact refuses_of_map sorted inner
  | case5 name path =>
    rintro ⟨⟩
    exact Catalog.Refuses.unknown.within
  | case6 steps name path absent =>
    rintro ⟨⟩
    exact Catalog.Refuses.unknown.within
  | case7 steps name path e entry declared type =>
    exact refuses_of_record sorted inner entry type
  | case8 steps name path e entry values descriptions type =>
    exact fun h => (Catalog.Refuses.enumeration entry type h).within
  | case9 steps name path e entry t type => exact refuses_of_array sorted inner
  | case10 steps name path e entry t type ih => exact ih
  | case11 steps name path e entry discriminant variants type ih =>
    intro h
    rcases Outcome.bind_eq_error.mp h with select | ⟨⟨index, variant, tag⟩, -, h⟩
    · exact (Catalog.Refuses.variant entry type select).within
    · rcases Outcome.bind_eq_error.mp h with h | ⟨_, -, h⟩
      · exact ih variant h
      · cases h

end Fault

/-- A value that does not decode holds a value that a check refuses. -/
theorem refuses_of_value {c : Catalog} {v : Json} (sorted : v.Sorted) {t : TypeRef}
    {path : FieldPath} {err : DecodeError} (h : value c v t path = .error err) :
    c.RefusesWithin v path err := by
  induction size : sizeOf v using Nat.strong_induction_on generalizing v t path err with
  | h n ih =>
    subst size
    rw [value_eq] at h
    exact refuses_of_typeRef sorted
      (fun w lt sorted t path err h => ih _ lt sorted h rfl) h

end Decode

namespace Decode

variable {path : FieldPath} {v : Json} {err : DecodeError}

theorem primitive_error {p : Primitive} (h : primitive p v path = .error err) :
    ∃ expected, err = .typeMismatch path expected v.kind := by
  revert h
  fun_cases primitive p v path <;> simp_all [mismatch, eq_comm]

theorem literal_error {l : Literal} (h : literal l v path = .error err) :
    ∃ expected, err = .typeMismatch path expected v.kind := by
  rw [literal] at h
  split at h
  · exact primitive_error h
  · cases h
    exact ⟨_, rfl⟩

theorem enumeration_error {name : String} {values : List Literal}
    (h : enumeration name values v path = .error err) :
    (∃ expected, err = .typeMismatch path expected v.kind) ∨
      ∃ l, Literal.ofJson? v = some l ∧ l ∉ values ∧ err = .unknownEnumValue path name l.text := by
  rw [enumeration] at h
  split at h
  · cases h
    exact .inl ⟨_, rfl⟩
  · next l literal =>
    split at h
    · cases h
    · next outside =>
      split at h
      · cases h
        exact .inr ⟨l, literal, outside, rfl⟩
      · cases h
        exact .inl ⟨_, rfl⟩

theorem selectVariant_none (name : String) (variants : List Variant) :
    selectVariant name none variants v path =
      match variants.zipIdx.find? fun p => p.1.shape.accepts v with
      | some (variant, index) => .ok (index, variant, none)
      | none => .error (.noMatchingVariant path name) := rfl

/-- Why no variant is selected: with a discriminant the value is no object, lacks the key or has no
known tag there, and without one no shape fits. -/
theorem selectVariant_error {name : String} {discriminant : Option String} {variants : List Variant}
    (h : selectVariant name discriminant variants v path = .error err) :
    (∃ key, discriminant = some key ∧
      (err = .typeMismatch path "object" v.kind ∨
        ∃ members, v = .object members ∧
          (Assoc.get? members key = none ∧ err = .missingField (path.pushKey key) ∨
            ∃ raw, Assoc.get? members key = some raw ∧
              err = .unknownTag path name key raw.render))) ∨
    discriminant = none ∧ (∀ variant ∈ variants, variant.shape.accepts v = false) ∧
      err = .noMatchingVariant path name := by
  cases discriminant with
  | some key =>
    refine .inl ⟨key, rfl, ?_⟩
    cases v with
    | object members =>
      refine .inr ⟨members, rfl, ?_⟩
      rw [selectVariant] at h
      split at h
      · next absent =>
        cases h
        exact .inl ⟨absent, rfl⟩
      · next raw found =>
        refine .inr ⟨raw, found, ?_⟩
        split at h
        · cases h
          rfl
        · split at h
          · cases h
          · cases h
            rfl
    | _ =>
      cases h
      exact .inl rfl
  | none =>
    rw [selectVariant_none] at h
    split at h
    · cases h
    · next none =>
      cases h
      refine .inr ⟨rfl, fun variant mem => ?_, rfl⟩
      obtain ⟨i, lt, rfl⟩ := List.mem_iff_getElem.mp mem
      have listed : (variants[i], i) ∈ variants.zipIdx :=
        List.mem_zipIdx_iff_getElem?.mpr (List.getElem?_eq_getElem lt)
      simpa using List.find?_eq_none.mp none _ listed

end Decode

namespace Catalog

variable {c : Catalog} {t : TypeRef} {v : Json}

/-- That no variant matches is said of a union without a discriminant none of whose shapes fits. -/
theorem Refuses.shapes {path place : FieldPath} {typeName : String}
    (h : c.Refuses t v path (.noMatchingVariant place typeName)) :
    place = path ∧ ∃ name e variants, c.get? name = some e ∧ e.name = typeName ∧
      e.type = .union none variants ∧ ∀ variant ∈ variants, variant.shape.accepts v = false := by
  cases h with
  | primitive h =>
    obtain ⟨expected, eq⟩ := Decode.primitive_error h
    cases eq
  | literal h =>
    obtain ⟨expected, eq⟩ := Decode.literal_error h
    cases eq
  | enumeration entry type h =>
    rcases Decode.enumeration_error h with ⟨expected, eq⟩ | ⟨l, -, -, eq⟩ <;> cases eq
  | «variant» entry type h =>
    rcases Decode.selectVariant_error h with ⟨key, -, tag⟩ | ⟨rfl, shapes, eq⟩
    · rcases tag with eq | ⟨members, -, ⟨-, eq⟩ | ⟨raw, -, eq⟩⟩ <;> cases eq
    · cases eq
      exact ⟨rfl, _, _, _, entry, rfl, type, shapes⟩

end Catalog

end TypedArchive
