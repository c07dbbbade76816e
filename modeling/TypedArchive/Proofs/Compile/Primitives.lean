import TypedArchive.Proofs.Compile.Meet
import TypedArchive.Proofs.Compile.Shape
import TypedArchive.Proofs.Compile.WellFormed

/-! Unions of primitives, told apart by shape. A whole number above the signed 64-bit range has the
shape of an integer but is decoded as a number only, and a union that lists both has the integer
first: this is the one place where such a union refuses what one of its types reads. -/

namespace TypedArchive

/-- A whole number that is too large for an `Int64`. -/
def Json.aboveInt64 : Json → Bool
  | .number (.integer i _) => decide (0x8000000000000000 ≤ i)
  | _ => false

theorem Number.isSome_toInt64?_integer {i : Int}
    (fits : -0x8000000000000000 ≤ i ∧ i < 0x10000000000000000) :
    (Number.integer i fits).toInt64?.isSome = decide (i < 0x8000000000000000) := by
  rw [toInt64?]
  split <;> simp_all

namespace Compile

/-- The shape of a primitive fits what decodes as it; that of integers fits larger ones too. -/
theorem primitiveShape_accepts_iff {p : Primitive} {v : Json} :
    (primitiveShape p).accepts v = true ↔
      p.holds v = true ∨ p = .integer ∧ v.aboveInt64 = true := by
  cases p with
  | integer =>
    cases v with
    | number n =>
      cases n with
      | integer i fits =>
        have either := Int.lt_or_le i 0x8000000000000000
        simpa [primitiveShape, Shape.accepts, Number.isInteger, Primitive.holds,
          Number.isSome_toInt64?_integer, Json.aboveInt64] using either
      | double x => simp [primitiveShape, Shape.accepts, Number.isInteger, Primitive.holds,
          Number.toInt64?, Json.aboveInt64]
    | _ => simp [primitiveShape, Shape.accepts, Primitive.holds, Json.aboveInt64]
  | _ => cases v <;> simp [primitiveShape, Shape.accepts, Primitive.holds]

theorem integer_accepts_of_aboveInt64 {v : Json} (above : v.aboveInt64 = true) :
    (primitiveShape .integer).accepts v = true :=
  primitiveShape_accepts_iff.mpr (.inr ⟨rfl, above⟩)

/-- Whatever else has a shape that fits such a number, that shape hides integers. -/
theorem subsumes_integer {p : Primitive} {v : Json} (above : v.aboveInt64 = true)
    (fits : (primitiveShape p).accepts v = true) :
    (primitiveShape p).subsumes (primitiveShape .integer) = true := by
  cases v with
  | number n => cases p <;> first | rfl | cases fits
  | _ => cases above

end Compile

namespace Decode

theorem primitive_integer_of_aboveInt64 {v : Json} (above : v.aboveInt64 = true)
    (path : FieldPath) :
    primitive .integer v path = .error (.typeMismatch path "integer" "integer") := by
  cases v with
  | number n =>
    cases n with
    | integer i fits =>
      have large : ¬i < 0x8000000000000000 := Int.not_lt.mpr (of_decide_eq_true above)
      simp only [primitive, Number.toInt64?, if_neg large, mismatch, Json.kind, Number.isInteger]
      rfl
    | double x => cases above
  | _ => cases above

variable {name : String} {variants : List Variant} {v : Json}

/-- What a union without a discriminant selects: the first variant whose shape fits. -/
theorem selectVariant_shapes {path : FieldPath} {index : Nat} {variant : Variant}
    {tag : Option Literal}
    (h : selectVariant name none variants v path = .ok (index, variant, tag)) :
    tag = none ∧ variants[index]? = some variant ∧ variant.shape.accepts v = true ∧
      ∀ j < index, ∀ w, variants[j]? = some w → w.shape.accepts v = false := by
  rw [selectVariant_none] at h
  split at h
  · next found =>
    cases h
    obtain ⟨fits, i, lt, eq, before⟩ := List.find?_eq_some_iff_getElem.mp found
    simp only [List.getElem_zipIdx, Nat.zero_add, Prod.mk.injEq] at eq before
    obtain ⟨rfl, rfl⟩ := eq
    refine ⟨rfl, List.getElem?_eq_getElem _, fits, fun j earlier w at' => ?_⟩
    obtain ⟨lt', rfl⟩ := List.getElem?_eq_some_iff.mp at'
    simpa using before j earlier
  · cases h

theorem exists_selectVariant {w : Variant} (mem : w ∈ variants)
    (fits : w.shape.accepts v = true) (path : FieldPath) :
    ∃ index variant, selectVariant name none variants v path = .ok (index, variant, none) := by
  rw [selectVariant_none]
  split
  · exact ⟨_, _, rfl⟩
  · next missing =>
    obtain ⟨i, found⟩ := List.mem_iff_getElem?.mp mem
    have refuses := List.find?_eq_none.mp missing (w, i) (List.mem_zipIdx_iff_getElem?.mpr found)
    exact absurd fits refuses

end Decode

section Union

variable {c : Catalog} {name : String} {e : Entry} {variants : List Variant}
  (entry : c.get? name = some e) (type : e.type = .union none variants)

include entry type

/-- The union reads what the variant it selects reads. -/
theorem Catalog.decode_selected {v : Json} {index : Nat} {variant : Variant}
    {tag : Option Literal} {p : Primitive} (primitive : variant.type = .primitive p)
    (select : Decode.selectVariant e.name none variants v [] = .ok (index, variant, tag)) :
    c.decode name v = Data.union e.name tag index <$> Decode.primitive p v [] := by
  rw [Catalog.decode, Decode.value_eq, Decode.typeRef]
  simp only [entry, type, select]
  change (Decode.typeRef c v (Decode.parts c v) c.size variant.type [] >>= fun d =>
    pure (Data.union e.name tag index d)) = _
  rw [primitive, Decode.typeRef]
  cases Decode.primitive p v [] <;> rfl

variable (shapes : ∀ w ∈ variants, ∃ p, w.type = .primitive p ∧ w.shape = Compile.primitiveShape p)

include shapes

/-- A union of primitives decodes a value as the first variant that does. -/
theorem Catalog.decode_first {v : Json} {d : Data} (decoded : c.decode name v = .ok d) :
    ∃ index variant inner, variants[index]? = some variant ∧
      Decode.value c v variant.type [] = .ok inner ∧ d = .union e.name none index inner ∧
      ∀ j < index, ∀ w, variants[j]? = some w → (Decode.value c v w.type []).isOk = false := by
  cases Catalog.decode_eq_ok_iff.mp decoded with
  | @«union» _ e' _ _ _ index variant tag inner entry' type' select read =>
    cases entry.symm.trans entry'
    cases type.symm.trans type'
    obtain ⟨rfl, place, -, before⟩ := Decode.selectVariant_shapes select
    refine ⟨index, variant, inner, place, Decode.value_of_reads read [], rfl,
      fun j earlier w found => Bool.eq_false_iff.mpr fun ok => ?_⟩
    obtain ⟨p, primitive, shape⟩ := shapes w (List.mem_of_getElem? found)
    have holds := Catalog.accepts_primitive.mp (primitive ▸ Catalog.isOk_value_iff.mp ok)
    have fits := Compile.primitiveShape_accepts holds
    rw [← shape, before j earlier w found] at fits
    cases fits
  | _ => simp_all

theorem Catalog.decode_of_variant {v : Json} {w : Variant} (mem : w ∈ variants)
    (ok : (Decode.value c v w.type []).isOk = true)
    (inside : v.aboveInt64 = true → ∀ w ∈ variants, w.type ≠ .primitive .integer) :
    (c.decode name v).isOk = true := by
  obtain ⟨p, primitive, shape⟩ := shapes w mem
  have holds := Catalog.accepts_primitive.mp (primitive ▸ Catalog.isOk_value_iff.mp ok)
  have fits : w.shape.accepts v = true := shape ▸ Compile.primitiveShape_accepts holds
  obtain ⟨index, variant, select⟩ := Decode.exists_selectVariant mem fits []
  obtain ⟨-, place, first, -⟩ := Decode.selectVariant_shapes select
  obtain ⟨p', primitive', shape'⟩ := shapes variant (List.mem_of_getElem? place)
  rw [shape', Compile.primitiveShape_accepts_iff] at first
  rcases first with holds' | ⟨rfl, above⟩
  · obtain ⟨d, read⟩ := Decode.primitive_holds.mpr holds'
    rw [Catalog.decode_selected entry type primitive' select, read]
    rfl
  · exact absurd primitive' (inside above variant (List.mem_of_getElem? place))

variable (visible : variants.Pairwise fun earlier later =>
  earlier.shape.subsumes later.shape = false)

include visible

/-- Where integers are among the variants, a number above them is sent to them and refused. -/
theorem Catalog.decode_aboveInt64 {v : Json} (above : v.aboveInt64 = true) {u : Variant}
    (mem : u ∈ variants) (integer : u.type = .primitive .integer) :
    c.decode name v = .error (.typeMismatch [] "integer" "integer") := by
  obtain ⟨p, primitive, shape⟩ := shapes u mem
  cases integer.symm.trans primitive
  have fits : u.shape.accepts v = true := shape ▸ Compile.integer_accepts_of_aboveInt64 above
  obtain ⟨index, variant, select⟩ := Decode.exists_selectVariant mem fits []
  obtain ⟨-, place, first, before⟩ := Decode.selectVariant_shapes select
  obtain ⟨p, primitive, shape'⟩ := shapes variant (List.mem_of_getElem? place)
  obtain ⟨k, found⟩ := List.mem_iff_getElem?.mp mem
  rcases Nat.lt_trichotomy k index with earlier | rfl | later
  · rw [before k earlier u found] at fits
    cases fits
  · cases place.symm.trans found
    rw [Catalog.decode_selected entry type integer select,
      Decode.primitive_integer_of_aboveInt64 above]
    rfl
  · -- a shape before that of the integers would hide it
    obtain ⟨lt, rfl⟩ := List.getElem?_eq_some_iff.mp place
    obtain ⟨lt', rfl⟩ := List.getElem?_eq_some_iff.mp found
    have apart := List.pairwise_iff_getElem.mp visible index k lt lt' later
    rw [shape] at apart
    rw [shape'] at apart first
    rw [Compile.subsumes_integer above first] at apart
    cases apart

end Union

/-- A union of primitives in a compiled catalog decodes a value exactly if the type of one of its
variants does and the value is no whole number above `Int64` where integers are among the variants;
it is then decoded as the first variant that does. Such a number is refused as no integer, also where
a later variant decodes it. -/
theorem Graph.decode_primitives_of_compile {g : Graph} {c : Catalog} (compile : g.compile = .ok c)
    {name : String} {e : Entry} {variants : List Variant} (entry : c.get? name = some e)
    (type : e.type = .union none variants)
    (primitives : ∀ w ∈ variants, ∃ p, w.type = .primitive p) (v : Json) :
    ((c.decode name v).isOk = true ↔
      (∃ w ∈ variants, (Decode.value c v w.type []).isOk = true) ∧
        ¬(v.aboveInt64 = true ∧ ∃ w ∈ variants, w.type = .primitive .integer)) ∧
    (∀ d, c.decode name v = .ok d → ∃ index variant inner, variants[index]? = some variant ∧
      Decode.value c v variant.type [] = .ok inner ∧ d = .union e.name none index inner ∧
      ∀ j < index, ∀ w, variants[j]? = some w → (Decode.value c v w.type []).isOk = false) ∧
    (v.aboveInt64 = true → ∀ w ∈ variants, w.type = .primitive .integer →
      c.decode name v = .error (.typeMismatch [] "integer" "integer")) := by
  obtain ⟨names, pending, compiled⟩ := Compile.compile_ok compile
  have visible := (compiled.shaped entry type).2
  have shapes (w) (mem : w ∈ variants) :
      ∃ p, w.type = .primitive p ∧ w.shape = Compile.primitiveShape p := by
    obtain ⟨p, primitive⟩ := primitives w mem
    obtain ⟨before, -, shape⟩ := compiled.shape entry type mem
    exact ⟨p, primitive, by rw [shape, primitive]; rfl⟩
  refine ⟨⟨fun ok => ⟨?_, ?_⟩, ?_⟩, fun d => Catalog.decode_first entry type shapes,
    fun above w mem => Catalog.decode_aboveInt64 entry type shapes visible above mem⟩
  · obtain ⟨d, decoded⟩ := Outcome.exists_of_isOk ok
    obtain ⟨index, variant, inner, place, read, -⟩ :=
      Catalog.decode_first entry type shapes decoded
    exact ⟨variant, List.mem_of_getElem? place, by rw [read]; rfl⟩
  · rintro ⟨above, w, mem, integer⟩
    rw [Catalog.decode_aboveInt64 entry type shapes visible above mem integer] at ok
    cases ok
  · rintro ⟨⟨w, mem, ok⟩, inside⟩
    exact Catalog.decode_of_variant entry type shapes mem ok
      fun above w mem integer => inside ⟨above, w, mem, integer⟩

set_option maxRecDepth 100000 in
/-- Integers and numbers: an integer is decoded as one, and a number above them not at all. -/
theorem Graph.decode_primitives_integer :
    let branches : Json := .array (["integer", "number", "string"].map fun word =>
      .object [("type", .string word)])
    let schema : Json := .object [("definitions", .object [("u", .object [("oneOf", branches)])])]
    let large : Json := .number (.integer 0x8000000000000000 ⟨by decide, by decide⟩)
    ∃ g c e variants, Graph.load ⟨[("a.json", schema.render)]⟩ = .ok g ∧ g.compile = .ok c ∧
      c.get? "U" = some e ∧ e.type = .union none variants ∧
      variants.map Variant.type = [.primitive .integer, .primitive .number, .primitive .string] ∧
      (c.decode "U" (.ofInt64 5)).isOk = true ∧ (c.decode "U" .null).isOk = false ∧
      c.decode "U" large = .error (.typeMismatch [] "integer" "integer") := by
  intro branches schema large
  let variants : List Variant := [⟨none, .primitive .integer, .integer⟩,
    ⟨none, .primitive .number, .number⟩, ⟨none, .primitive .string, .string⟩]
  have runs : Bundle.compilesTo ⟨[("a.json", schema.render)]⟩ (fun _ c => decide
      ((c.get? "U").map Entry.type = some (.union none variants) ∧
        (Decode.value c (.ofInt64 5) (.primitive .integer) []).isOk = true ∧
        variants.all fun w => !(Decode.value c .null w.type []).isOk)) = true := by
    rw [Bundle.compilesTo_eq]
    decide +kernel
  obtain ⟨g, c, load, compile, h⟩ := Bundle.exists_of_compilesTo runs
  obtain ⟨type, five, refused⟩ := of_decide_eq_true h
  obtain ⟨e, entry, type⟩ := Option.map_eq_some_iff.mp type
  have primitives : ∀ w ∈ variants, ∃ p, w.type = .primitive p := by simp [variants]
  have decodes := Graph.decode_primitives_of_compile compile entry type primitives
  refine ⟨g, c, e, variants, load, compile, entry, type, rfl, ?_, ?_, ?_⟩
  · exact (decodes (.ofInt64 5)).1.mpr ⟨⟨_, List.mem_cons_self, five⟩, fun hidden => by
      simp [Json.aboveInt64, Json.ofInt64, Number.ofInt64] at hidden⟩
  · refine Bool.eq_false_iff.mpr fun ok => ?_
    obtain ⟨w, mem, read⟩ := ((decodes .null).1.mp ok).1
    simpa [read] using List.all_eq_true.mp refused w mem
  · exact (decodes large).2.2 (by decide) _ List.mem_cons_self rfl

set_option maxRecDepth 100000 in
/-- A union of integers and numbers refuses a number that its second type decodes. -/
theorem Graph.decode_refuses_number :
    let branches : Json := .array (["integer", "number"].map fun word =>
      .object [("type", .string word)])
    let schema : Json := .object [("definitions", .object [("u", .object [("oneOf", branches)])])]
    let large : Json := .number (.integer 0x8000000000000000 ⟨by decide, by decide⟩)
    ∃ g c e variants, Graph.load ⟨[("a.json", schema.render)]⟩ = .ok g ∧ g.compile = .ok c ∧
      c.get? "U" = some e ∧ e.type = .union none variants ∧
      (∀ w ∈ variants, ∃ p, w.type = .primitive p) ∧
      ¬((c.decode "U" large).isOk = true ↔
        ∃ w ∈ variants, (Decode.value c large w.type []).isOk = true) := by
  intro branches schema large
  let variants : List Variant :=
    [⟨none, .primitive .integer, .integer⟩, ⟨none, .primitive .number, .number⟩]
  have runs : Bundle.compilesTo ⟨[("a.json", schema.render)]⟩ (fun _ c => decide
      ((c.get? "U").map Entry.type = some (.union none variants) ∧
        (Decode.value c large (.primitive .number) []).isOk = true ∧
        (c.decode "U" large).isOk = false)) = true := by
    rw [Bundle.compilesTo_eq]
    decide +kernel
  obtain ⟨g, c, load, compile, h⟩ := Bundle.exists_of_compilesTo runs
  obtain ⟨type, number, refused⟩ := of_decide_eq_true h
  obtain ⟨e, entry, type⟩ := Option.map_eq_some_iff.mp type
  refine ⟨g, c, e, variants, load, compile, entry, type, by simp [variants], fun agree => ?_⟩
  have ok := agree.mpr ⟨_, List.mem_cons_of_mem _ List.mem_cons_self, number⟩
  rw [refused] at ok
  cases ok

end TypedArchive
