import TypedArchive.Proofs.Binding.Fault
import TypedArchive.Proofs.Binding.Run
import TypedArchive.Proofs.Binding.Walk

/-! Errors of decoding point at what is wrong: the path of an error leads from the decoded value to
a value of which the error's text is true. -/

namespace TypedArchive

namespace TypeDef

/-- The type asks for a key: a field that is not optional, or a discriminant. -/
def Requires (key : String) : TypeDef → Prop
  | .record declared => ∃ f ∈ declared, f.name = key ∧ f.optional = false
  | .union discriminant _ => discriminant = some key
  | _ => False

end TypeDef

namespace DecodeError

/-- What an error tells is true of a value at a place. A key that is missing is the last segment of
the place, and of the object before it. -/
def Tells (c : Catalog) (v : Json) (place : FieldPath) : DecodeError → Prop
  | missingField _ => ∃ front key members e, place = front.pushKey key ∧
      v.at? front = some (.object members) ∧ Assoc.get? members key = none ∧
      c.get? e.name = some e ∧ e.type.Requires key
  | typeMismatch _ _ found => ∃ w, v.at? place = some w ∧ found = w.kind
  | unknownEnumValue _ typeName value => ∃ w l e values descriptions, v.at? place = some w ∧
      Literal.ofJson? w = some l ∧ value = l.text ∧ c.get? typeName = some e ∧
      e.type = .enumeration values descriptions ∧ l ∉ values
  | unknownTag _ typeName discriminant tag => ∃ members raw e variants,
      v.at? place = some (.object members) ∧ Assoc.get? members discriminant = some raw ∧
      tag = raw.render ∧ c.get? typeName = some e ∧ e.type = .union (some discriminant) variants ∧
      ∀ l, Literal.ofJson? raw = some l → variantForTag? variants l = none
  | noMatchingVariant _ typeName => ∃ w e variants, v.at? place = some w ∧
      c.get? typeName = some e ∧ e.type = .union none variants ∧
      ∀ variant ∈ variants, variant.shape.accepts w = false
  | unknownType _ typeName => (∃ w, v.at? place = some w) ∧ c.get? typeName = none
  | custom .. => False

variable {c : Catalog} {v w : Json} {err : DecodeError}

/-- What is true at a place inside a part of a value is true at that place inside the value. -/
theorem Tells.within {s : Segment} {place : FieldPath} (part : v.at? [s] = some w)
    (h : err.Tells c w place) : err.Tells c v (s :: place) := by
  have leads (rest : FieldPath) : v.at? (s :: rest) = w.at? rest := by
    rw [← List.singleton_append, Json.at?_append, part, Option.bind_some]
  cases err with
  | missingField =>
    obtain ⟨front, key, members, e, rfl, object, absent, entry, requires⟩ := h
    exact ⟨s :: front, key, members, e, rfl, (leads front).trans object, absent, entry, requires⟩
  | custom => exact h
  | _ =>
    simp only [Tells, leads]
    exact h

end DecodeError

namespace Catalog

/-- An error stands, behind the path so far, where it is true. -/
def Blames (c : Catalog) (v : Json) (path : FieldPath) (err : DecodeError) : Prop :=
  ∃ place, err.path = path ++ place ∧ err.Tells c v place

variable {c : Catalog} {v w : Json} {path : FieldPath} {err : DecodeError}

theorem Blames.part {s : Segment} (part : v.at? [s] = some w) (h : c.Blames w (path.push s) err) :
    c.Blames v path err := by
  obtain ⟨place, eq, tells⟩ := h
  refine ⟨s :: place, ?_, tells.within part⟩
  rw [eq, FieldPath.push, List.append_assoc, List.singleton_append]

theorem Blames.here (eq : err.path = path) (h : err.Tells c v []) : c.Blames v path err :=
  ⟨[], eq.trans (List.append_nil path).symm, h⟩

theorem Blames.mismatch (expected : String) :
    c.Blames v path (.typeMismatch path expected v.kind) :=
  .here rfl ⟨v, rfl, rfl⟩

theorem Blames.missing {members : List (String × Json)} {key : String} {e : Entry}
    (absent : Assoc.get? members key = none) (entry : c.get? e.name = some e)
    (requires : e.type.Requires key) :
    c.Blames (.object members) path (.missingField (path.pushKey key)) :=
  ⟨[.key key], rfl, [], key, members, e, rfl, rfl, absent, entry, requires⟩

end Catalog

namespace Reading

variable {α β : Type}

theorem bind_eq_error {x : Reading α} {f : α → Reading β} {err : DecodeError}
    (h : (x >>= f) = some (.error err)) :
    x = some (.error err) ∨ ∃ a, x = some (.ok a) ∧ f a = some (.error err) := by
  match x with
  | none => cases h
  | some (.error e) =>
    cases h
    exact .inl rfl
  | some (.ok a) => exact .inr ⟨a, rfl, h⟩

theorem map_eq_error {x : Reading α} {f : α → β} {err : DecodeError}
    (h : (x >>= fun a => pure (f a) : Reading β) = some (.error err)) : x = some (.error err) := by
  rcases bind_eq_error h with h | ⟨a, -, h⟩
  · exact h
  · cases h

theorem exists_of_mapM_eq_error {f : α → Reading β} {xs : List α} {err : DecodeError}
    (h : xs.mapM f = some (.error err)) : ∃ x ∈ xs, f x = some (.error err) := by
  induction xs with
  | nil => cases h
  | cons x xs ih =>
    rw [List.mapM_cons] at h
    rcases bind_eq_error h with first | ⟨y, -, h⟩
    · exact ⟨x, List.mem_cons_self, first⟩
    · obtain ⟨x', mem, fails⟩ := ih (map_eq_error h)
      exact ⟨x', List.mem_cons_of_mem x mem, fails⟩

theorem exists_of_foldlM_eq_error {f : β → α → Reading β} {xs : List α} {start : β}
    {err : DecodeError} (h : xs.foldlM f start = some (.error err)) :
    ∃ x ∈ xs, ∃ b, f b x = some (.error err) := by
  induction xs generalizing start with
  | nil => cases h
  | cons x xs ih =>
    rw [List.foldlM_cons] at h
    rcases bind_eq_error h with first | ⟨b, -, h⟩
    · exact ⟨x, List.mem_cons_self, start, first⟩
    · obtain ⟨x', mem, b, fails⟩ := ih h
      exact ⟨x', List.mem_cons_of_mem x mem, b, fails⟩

end Reading

namespace Decode

variable {c : Catalog} {v : Json} {path : FieldPath} {err : DecodeError}

section Check

theorem blames_of_primitive {p : Primitive} (h : primitive p v path = .error err) :
    c.Blames v path err := by
  obtain ⟨expected, rfl⟩ := primitive_error h
  exact .mismatch expected

theorem blames_of_literal {l : Literal} (h : literal l v path = .error err) :
    c.Blames v path err := by
  obtain ⟨expected, rfl⟩ := literal_error h
  exact .mismatch expected

variable {e : Entry} (entry : c.get? e.name = some e)

include entry

theorem blames_of_enumeration {values : List Literal} {descriptions : List String}
    (type : e.type = .enumeration values descriptions)
    (h : enumeration e.name values v path = .error err) : c.Blames v path err := by
  rcases enumeration_error h with ⟨expected, rfl⟩ | ⟨l, literal, outside, rfl⟩
  · exact .mismatch expected
  · exact .here rfl ⟨v, l, e, values, descriptions, rfl, literal, rfl, entry, type, outside⟩

theorem blames_of_tag {key : String} {variants : List Variant}
    (type : e.type = .union (some key) variants)
    (h : selectVariant e.name (some key) variants v path = .error err) : c.Blames v path err := by
  cases v with
  | object members =>
    rw [selectVariant] at h
    cases found : members.lookup key with
    | none =>
      simp only [found] at h
      cases h
      exact .missing found entry (by rw [type]; rfl)
    | some raw =>
      have unknown (none : ∀ l, Literal.ofJson? raw = some l → variantForTag? variants l = none) :
          c.Blames (.object members) path (.unknownTag path e.name key raw.render) :=
        .here rfl ⟨members, raw, e, variants, rfl, found, rfl, entry, type, none⟩
      simp only [found] at h
      cases literal : Literal.ofJson? raw with
      | none =>
        simp only [literal] at h
        cases h
        exact unknown fun l eq => by cases literal.symm.trans eq
      | some tag =>
        simp only [literal] at h
        cases selected : variantForTag? variants tag with
        | some choice => simp [selected] at h
        | none =>
          simp only [selected] at h
          cases h
          refine unknown fun l eq => ?_
          cases literal.symm.trans eq
          exact selected
  | _ =>
    cases h
    exact .mismatch "object"

theorem blames_of_selectVariant {discriminant : Option String} {variants : List Variant}
    (type : e.type = .union discriminant variants)
    (h : selectVariant e.name discriminant variants v path = .error err) : c.Blames v path err := by
  cases discriminant with
  | some key => exact blames_of_tag entry type h
  | none =>
    rcases selectVariant_error h with ⟨key, eq, -⟩ | ⟨-, shapes, rfl⟩
    · cases eq
    · exact .here rfl ⟨v, e, variants, rfl, entry, type, shapes⟩

end Check

section Round

variable {read : TypeRef → Json → FieldPath → Reading Data} (sorted : v.Sorted)
  (inner : ∀ w : Json, w.Sorted → ∀ t path err, read t w path = some (.error err) →
    c.Blames w path err)

include sorted inner

theorem blames_of_roundArray {t : TypeRef} (h : roundArray read t v path = some (.error err)) :
    c.Blames v path err := by
  cases v with
  | array items =>
    obtain ⟨⟨w, i⟩, mem, fails⟩ := Reading.exists_of_mapM_eq_error (Reading.map_eq_error h)
    have found : items[i]? = some w := List.mem_zipIdx_iff_getElem?.mp mem
    exact .part (Json.at?_index found [])
      (inner w (Json.sorted_array.mp sorted w (List.mem_of_getElem? found)) _ _ _ fails)
  | _ =>
    cases h
    exact .mismatch "array"

theorem blames_of_roundMap {t : TypeRef} (h : roundMap read t v path = some (.error err)) :
    c.Blames v path err := by
  cases v with
  | object members =>
    obtain ⟨keys, values⟩ := Json.sorted_object.mp sorted
    obtain ⟨⟨key, w⟩, mem, fails⟩ := Reading.exists_of_mapM_eq_error (Reading.map_eq_error h)
    -- the key is met once only, so that the path leads to the member that was read
    exact .part (Json.at?_key (Assoc.get?_of_mem keys.keys_nodup mem) [])
      (inner w (values _ mem) _ _ _ (Reading.map_eq_error fails))
  | _ =>
    cases h
    exact .mismatch "object"

theorem blames_of_roundRecord {e : Entry} {declared : List Field} (entry : c.get? e.name = some e)
    (type : e.type = .record declared)
    (h : roundRecord read e.name declared v path = some (.error err)) : c.Blames v path err := by
  cases v with
  | object members =>
    obtain ⟨f, mem, ds, fails⟩ := Reading.exists_of_foldlM_eq_error (Reading.map_eq_error h)
    rw [roundField] at fails
    cases found : Assoc.get? members f.name with
    | some w =>
      simp only [found] at fails
      have listed := Assoc.mem_of_get? found
      exact .part (Json.at?_key found []) (inner w ((Json.sorted_object.mp sorted).2 _ listed) _ _ _
        (Reading.map_eq_error fails))
    | none =>
      simp only [found] at fails
      split at fails
      · cases fails
      · next needed =>
        cases fails
        exact .missing found entry (by rw [type]; exact ⟨f, mem, rfl, by simpa using needed⟩)
  | _ =>
    cases h
    exact .mismatch "object"

/-- A round raises the error of a check on the value, or hands on that of a part of the value or of
the type that the value is handed on to. -/
theorem blames_of_round (keyed : c.Keyed) {t : TypeRef}
    (h : round read c t v path = some (.error err)) : c.Blames v path err := by
  cases t with
  | primitive p => exact blames_of_primitive (Option.some.inj h)
  | literal l => exact blames_of_literal (Option.some.inj h)
  | array t => exact blames_of_roundArray sorted inner h
  | map t => exact blames_of_roundMap sorted inner h
  | named name =>
    rw [round] at h
    cases found : c.get? name with
    | none =>
      simp only [found] at h
      cases h
      exact .here rfl ⟨⟨v, rfl⟩, found⟩
    | some e =>
      have entry : c.get? e.name = some e := by rw [keyed.name_eq found, found]
      simp only [found] at h
      cases type : e.type with
      | record declared =>
        rw [type] at h
        exact blames_of_roundRecord sorted inner entry type h
      | enumeration values descriptions =>
        rw [type] at h
        exact blames_of_enumeration entry type (Option.some.inj h)
      | array t =>
        rw [type] at h
        exact blames_of_roundArray sorted inner h
      | «alias» t =>
        rw [type] at h
        exact inner v sorted t path err h
      | «union» discriminant variants =>
        simp only [type] at h
        rcases Reading.bind_eq_error h with select | ⟨selected, -, h⟩
        · exact blames_of_selectVariant entry type (Option.some.inj select)
        · exact inner v sorted _ path err (Reading.map_eq_error h)

end Round

theorem blames_of_run (keyed : c.Keyed) {rounds : Nat} {t : TypeRef} (sorted : v.Sorted)
    (h : run c rounds t v path = some (.error err)) : c.Blames v path err := by
  induction rounds generalizing t v path err with
  | zero => cases h
  | succ rounds ih => exact blames_of_round sorted (fun w sorted t path err => ih sorted) keyed h

end Decode

/-- Where decoding fails, the path of the error leads from the decoded value to what the error
tells, and the walk with one path that is pushed and popped raises that error too. -/
theorem Catalog.tells_of_run {c : Catalog} (keyed : c.Keyed) {name : String} {v : Json}
    (sorted : v.Sorted) {err : DecodeError} (h : c.run name v = some (.error err)) :
    c.walk name v = some (.error err) ∧ err.Tells c v err.path := by
  obtain ⟨place, eq, tells⟩ := Decode.blames_of_run keyed sorted h
  refine ⟨by rw [c.walk_eq_run, h]; rfl, ?_⟩
  rwa [eq]

/-- Of two layers on a page the second has no class: the error tells the key that it lacks, after
all that was read before it. -/
theorem Catalog.tells_of_run_nested :
    let required (key : String) (t : TypeRef) : Field := ⟨key, t, false, none⟩
    let record (name : String) (fields : List Field) : String × Entry :=
      (name, ⟨name, name, none, .record fields⟩)
    let layer : TypeDef := .union (some "_class") [⟨some (.string "oval"), .named "Oval", .any⟩]
    let c : Catalog := ⟨[
      record "Doc" [required "title" (.primitive .string),
        required "pages" (.array (.named "Page"))],
      ("Layer", ⟨"Layer", "Layer", none, layer⟩),
      record "Oval" [required "radius" (.primitive .integer)],
      record "Page" [required "layers" (.array (.named "Layer"))]]⟩
    let oval : Json := .object [("_class", .string "oval"), ("radius", .ofInt64 1)]
    let bare : Json := .object [("radius", .ofInt64 2)]
    let v : Json := .object [("pages", .array [.object [("layers", .array [oval, bare])]]),
      ("title", .string "x")]
    let err : DecodeError :=
      .missingField [.key "pages", .index 0, .key "layers", .index 1, .key "_class"]
    c.Keyed ∧ v.Sorted ∧ c.run "Doc" v = some (.error err) ∧ c.walk "Doc" v = some (.error err) ∧
      err.Tells c v err.path := by
  intro required record layer c oval bare v err
  have keyed : c.Keyed := by
    unfold Catalog.Keyed
    decide +kernel
  have sorted : v.Sorted := by decide +kernel
  have fails : c.run "Doc" v = some (.error err) := by decide +kernel
  obtain ⟨walks, tells⟩ := Catalog.tells_of_run keyed sorted fails
  exact ⟨keyed, sorted, fails, walks, tells⟩

end TypedArchive
