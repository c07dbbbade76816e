import TypedArchive.Proofs.Compile.Completeness

/-! Dispatch by a discriminant: an object with that key is read as the one variant of a compiled
union whose type reads it. -/

namespace TypedArchive

theorem Decode.selectVariant_tag {name discriminant : String} {variants : List Variant} {v : Json}
    {path : FieldPath} {index : Nat} {variant : Variant} {tag : Option Literal}
    (h : selectVariant name (some discriminant) variants v path = .ok (index, variant, tag)) :
    variant.tag = tag := by
  cases v with
  | object members =>
    rw [selectVariant] at h
    split at h
    · cases h
    · split at h
      · cases h
      · split at h
        · next selected =>
          cases h
          obtain ⟨p, found, eq⟩ := Option.map_eq_some_iff.mp selected
          cases eq
          simpa using List.find?_some found
        · cases h
  | _ => cases h

/-- A value decodes as the type of the variant at an index. -/
def Catalog.DecodesAt (c : Catalog) (variants : List Variant) (v : Json) (index : Nat)
    (tag : Option Literal) (d : Data) : Prop :=
  ∃ variant, variants[index]? = some variant ∧ variant.tag = tag ∧
    Decode.value c v variant.type [] = .ok d

namespace Compile

variable {c : Catalog} {discriminant : String} {variants : List Variant} {v : Json}

theorem selectVariant_of_decodesAt (tagged : Tagged c discriminant variants)
    (has : (v.get? discriminant).isSome = true) {index : Nat} {tag : Option Literal} {d : Data}
    (h : c.DecodesAt variants v index tag d) (name : String) :
    ∃ variant, Decode.selectVariant name (some discriminant) variants v [] =
      .ok (index, variant, tag) ∧ c.Reads variant.type v d := by
  obtain ⟨variant, place, rfl, decoded⟩ := h
  have read := Decode.reads_of_value decoded
  exact ⟨variant, selectVariant_of_accepts tagged place has ⟨d, read⟩ name, read⟩

/-- No two variants accept a value that has the field which tells them. -/
theorem decodesAt_unique (tagged : Tagged c discriminant variants)
    (has : (v.get? discriminant).isSome = true) {i j : Nat} {tag tag' : Option Literal}
    {d d' : Data} (first : c.DecodesAt variants v i tag d)
    (second : c.DecodesAt variants v j tag' d') : i = j := by
  obtain ⟨variant, select, -⟩ := selectVariant_of_decodesAt tagged has first ""
  obtain ⟨variant', select', -⟩ := selectVariant_of_decodesAt tagged has second ""
  cases select.symm.trans select'
  rfl

/-- A union with a discriminant reads a value as the variant that reads it. -/
theorem reads_tagged_iff {name : String} {e : Entry} (entry : c.get? name = some e)
    (type : e.type = .union (some discriminant) variants)
    (tagged : Tagged c discriminant variants) (has : (v.get? discriminant).isSome = true)
    {d : Data} : c.Reads (.named name) v d ↔
      ∃ index tag inner, c.DecodesAt variants v index tag inner ∧
        d = .union e.name tag index inner := by
  constructor
  · intro read
    cases read with
    | @«union» _ e' _ _ _ index variant tag inner entry' type' select read =>
      cases entry.symm.trans entry'
      cases type.symm.trans type'
      exact ⟨index, tag, inner, ⟨variant, Decode.selectVariant_index select,
        Decode.selectVariant_tag select, Decode.value_of_reads read []⟩, rfl⟩
    | _ => simp_all
  · rintro ⟨index, tag, inner, decoded, rfl⟩
    obtain ⟨variant, select, read⟩ := selectVariant_of_decodesAt tagged has decoded e.name
    exact .union entry type select read

end Compile

/-- A union of a compiled catalog that has a discriminant decodes a value with that key exactly when
the type of one of its variants does, as that variant and with its tag; no second one does. -/
theorem Graph.decode_tagged_of_compile {g : Graph} {c : Catalog} (compile : g.compile = .ok c)
    {name discriminant : String} {e : Entry} {variants : List Variant}
    (entry : c.get? name = some e) (type : e.type = .union (some discriminant) variants) {v : Json}
    (has : (v.get? discriminant).isSome = true) :
    (∀ d, c.decode name v = .ok d ↔ ∃ index tag inner,
      c.DecodesAt variants v index tag inner ∧ d = .union e.name tag index inner) ∧
    ∀ i j tag tag' d d', c.DecodesAt variants v i tag d → c.DecodesAt variants v j tag' d' →
      i = j := by
  obtain ⟨names, pending, compiled⟩ := Compile.compile_ok compile
  obtain ⟨u, -, -, resolved⟩ := compiled.union entry type
  have tagged := resolved.tagged_of_some
  refine ⟨fun d => ?_, fun i j tag tag' d d' => Compile.decodesAt_unique tagged has⟩
  rw [Catalog.decode_eq_ok_iff]
  exact Compile.reads_tagged_iff entry type tagged has

set_option maxRecDepth 100000 in
/-- Two unions that are branches of one another have the same two variants, in different orders. -/
theorem Graph.decode_tagged_of_mutual :
    let ref (name : String) : Json := .object [("$ref", .string ("#/definitions/" ++ name))]
    let record (tag : String) : Json := .object
      [("properties", .object [("k", .object [("const", .string tag)])])]
    let schema : Json := .object [("definitions", .object
      [("a", .object [("oneOf", .array [ref "x", ref "b"])]),
        ("b", .object [("oneOf", .array [ref "y", ref "a"])]),
        ("x", record "x"), ("y", record "y")])]
    let v : Json := .object [("k", .string "y")]
    let inner : Data := .record "Y" [("k", .string "y")] []
    ∃ g c e variants, Graph.load ⟨[("a.json", schema.render)]⟩ = .ok g ∧ g.compile = .ok c ∧
      c.get? "A" = some e ∧ e.type = .union (some "k") variants ∧
      variants.map Variant.type = [.named "X", .named "Y"] ∧ (v.get? "k").isSome = true ∧
      c.decode "A" v = .ok (.union "A" (some (.string "y")) 1 inner) ∧
      ∀ i tag d, c.DecodesAt variants v i tag d → i = 1 := by
  intro ref record schema v inner
  let variants : List Variant :=
    [⟨some (.string "x"), .named "X", .object []⟩, ⟨some (.string "y"), .named "Y", .object []⟩]
  have runs : Bundle.compilesTo ⟨[("a.json", schema.render)]⟩ (fun _ c => decide
      ((c.get? "A").map Entry.name = some "A" ∧
        (c.get? "A").map Entry.type = some (.union (some "k") variants) ∧
        (c.decode "Y" v).toOption = some inner)) = true := by
    rw [Bundle.compilesTo_eq]
    decide +kernel
  obtain ⟨g, c, load, compile, h⟩ := Bundle.exists_of_compilesTo runs
  obtain ⟨name, type, decoded⟩ := of_decide_eq_true h
  obtain ⟨e, entry, name⟩ := Option.map_eq_some_iff.mp name
  rw [entry, Option.map_some, Option.some.injEq] at type
  have second : c.DecodesAt variants v 1 (some (.string "y")) inner :=
    ⟨_, rfl, rfl, Outcome.toOption_eq_some.mp decoded⟩
  obtain ⟨decodes, unique⟩ := Graph.decode_tagged_of_compile (v := v) compile entry type rfl
  refine ⟨g, c, e, variants, load, compile, entry, type, rfl, rfl, ?_, fun i tag d h => ?_⟩
  · exact (decodes _).mpr ⟨1, _, inner, second, by rw [name]⟩
  · exact unique i 1 tag _ d inner h second

end TypedArchive
