import TypedArchive.Proofs.Binding.Steady
import TypedArchive.Proofs.Compile.Fields
import TypedArchive.Proofs.Compile.Shape

/-! What the bindings of a compiled catalog write, they read again, if it is steady. The shape of a
variant fits whatever its type accepts, and its tag is fixed by its record. -/

namespace TypedArchive

namespace Compile

/-- A value whose first fitting shape is that of a variant is read as the variant. -/
theorem accepts_of_shape {c : Catalog} {name : String} {e : Entry} {variants : List Variant}
    {index : Nat} {variant : Variant} {v : Json} (entry : c.get? name = some e)
    (type : e.type = .union none variants) (found : variants[index]? = some variant)
    (fits : variant.shape.accepts v = true) (told : Told none variants index v)
    (accepts : c.Accepts variant.type v) : c.Accepts (.named name) v := by
  obtain ⟨lt, eq⟩ := List.getElem?_eq_some_iff.mp found
  have first : variants.zipIdx.find? (fun p => p.1.shape.accepts v) = some (variant, index) := by
    rw [List.find?_eq_some_iff_getElem]
    refine ⟨fits, index, by simpa using lt, by simp [eq], fun i before => ?_⟩
    have lt' : i < variants.length := Nat.lt_trans before lt
    simpa using told i before variants[i] (List.getElem?_eq_getElem lt')
  have select : Decode.selectVariant e.name none variants v [] = .ok (index, variant, none) := by
    rw [Decode.selectVariant.eq_def]
    simp only [first]
  obtain ⟨d, read⟩ := accepts
  exact ⟨_, .union entry type select read⟩

/-- In a compiled catalog the decoder tells variants by what their types accept. -/
theorem Compiled.tellsVariants {g : Graph} {c : Catalog} {names : Names}
    {pending : List PendingUnion} (compiled : Compiled g c names pending) : c.TellsVariants := by
  intro name e discriminant variants index variant v entry type found told accepts
  obtain ⟨u, mem, rfl, resolved⟩ := compiled.union entry type
  cases discriminant with
  | some discriminant =>
    exact accepts_of_tag entry type resolved.tagged_of_some (List.mem_of_getElem? found) told
      accepts
  | none =>
    obtain ⟨before, e', kept, entry', resolve⟩ := compiled.resolves u mem
    cases entry.symm.trans entry'
    rw [type] at resolve
    obtain ⟨rfl, -⟩ := resolveUnion_shaped resolve
    obtain ⟨t, -, rfl⟩ := List.mem_map.mp (List.mem_of_getElem? found)
    exact accepts_of_shape entry type found (shapeOf_accepts kept accepts) told accepts

end Compile

/-- What the bindings of a compiled catalog write for data, they read again, as data of the same JSON,
exactly if the data is steady. All data that they read is steady. -/
theorem Graph.decode_of_encode {b : Bundle} {g : Graph} {c : Catalog}
    (load : Graph.load b = .ok g) (compile : g.compile = .ok c) {name : String} :
    (∀ {d : Data} {v : Json}, d.Sorted → c.encode name d = .ok v →
      ((∃ d', c.decode name v = .ok d' ∧ d'.toJson = v) ↔ c.Steady (.named name) d)) ∧
    ∀ {v : Json} {d : Data}, v.Sorted → c.decode name v = .ok d →
      d.Sorted ∧ c.Steady (.named name) d := by
  obtain ⟨names, pending, compiled⟩ := Compile.compile_ok compile
  have distinct := Graph.fieldsDistinct_of_compile load compile
  constructor
  · intro d v sorted written
    constructor
    · rintro ⟨d', decoded, -⟩
      exact (Catalog.decode_eq_ok_iff.mp decoded).steady_of_written sorted written
    · intro steady
      obtain ⟨d', read⟩ := steady.accepts compiled.tellsVariants sorted written
      obtain rfl := Encode.plain_of_sorted c sorted written
      have decoded : c.decode name d.toJson = .ok d' := Catalog.decode_eq_ok_iff.mpr read
      exact ⟨d', decoded, (Catalog.encode_decode distinct sorted.toJson decoded).2⟩
  · intro v d sorted decoded
    have read := Catalog.decode_eq_ok_iff.mp decoded
    exact ⟨read.sorted sorted, read.steady distinct sorted⟩

set_option maxRecDepth 100000 in
/-- The second variant of a union, with a member that the shape of the first one asks for, and which
the first one takes. -/
theorem Graph.decode_of_encode_taken :
    let text : Json := .object [("type", .string "string")]
    let branch (key : String) : Json := .object
      [("properties", .object [(key, text)]), ("required", .array [.string key]),
        ("type", .string "object")]
    let schema : Json := .object
      [("definitions", .object [("t", .object [("oneOf", .array [branch "a", branch "b"])])])]
    let d : Data := .union "T" none 1
      (.record "TVariant1" [("b", .string "x")] [("a", .string "y")])
    let v : Json := .object [("a", .string "y"), ("b", .string "x")]
    ∃ g c, Graph.load ⟨[("a.json", schema.render)]⟩ = .ok g ∧ g.compile = .ok c ∧ d.Sorted ∧
      c.encode "T" d = .ok v ∧ v.Sorted ∧ c.Steady (.named "T") d ∧
      ∃ d', c.decode "T" v = .ok d' ∧ d'.toJson = v ∧ d'.Sorted ∧ c.Steady (.named "T") d' := by
  intro text branch schema d v
  have runs : Bundle.compilesTo ⟨[("a.json", schema.render)]⟩ (fun _ c => decide
      ((c.get? "T").map Entry.type = some (.union none
        [⟨none, .named "TVariant0", .object ["a"]⟩, ⟨none, .named "TVariant1", .object ["b"]⟩]) ∧
        (c.encode "T" d).toOption = some v ∧ (c.decode "TVariant0" v).isOk = true)) = true := by
    rw [Bundle.compilesTo_eq]
    decide +kernel
  obtain ⟨g, c, load, compile, h⟩ := Bundle.exists_of_compilesTo runs
  obtain ⟨union, written, taken⟩ := of_decide_eq_true h
  obtain ⟨e, entry, type⟩ := Option.map_eq_some_iff.mp union
  obtain ⟨first, read⟩ := Outcome.exists_of_isOk taken
  have sorted : d.Sorted := by decide +kernel
  have sorted' : v.Sorted := by decide +kernel
  have written := Outcome.toOption_eq_some.mp written
  have steady : c.Steady (.named "T") d :=
    .other entry type rfl rfl Nat.zero_ne_one ⟨first, Catalog.decode_eq_ok_iff.mp read⟩
  obtain ⟨back, reads⟩ := Graph.decode_of_encode load compile
  obtain ⟨d', decoded, same⟩ := (back sorted written).mpr steady
  exact ⟨g, c, load, compile, sorted, written, sorted', steady, d', decoded, same,
    reads sorted' decoded⟩

set_option maxRecDepth 100000 in
/-- The decoder refuses an ill-typed member that is kept in the place of a field, a member that an
earlier shape asks for, and a variant without its optional tag; the encoder writes them. -/
theorem Graph.encode_undecoded :
    let object (properties : Json) (required : List Json) : Json :=
      .object [("properties", properties), ("required", .array required), ("type", .string "object")]
    let text : Json := .object [("type", .string "string")]
    let one (schema : Json) : Json := .object [("definitions", .object [("t", schema)])]
    let union (a b : Json) : Json := one (.object [("oneOf", .array [a, b])])
    let tag (kind : String) : Json :=
      object (.object [("k", .object [("const", .string kind)])]) []
    let cases : List (Json × Data × Json) := [
      (one (object (.object [("x", text)]) []),
        .record "T" [] [("x", .null)], .object [("x", .null)]),
      (union (object (.object [("a", text)]) [.string "a"])
          (object (.object [("b", text)]) [.string "b"]),
        .union "T" none 1 (.record "TVariant1" [("b", .string "x")] [("a", .null)]),
        .object [("a", .null), ("b", .string "x")]),
      (union (tag "x") (tag "y"),
        .union "T" (some (.string "x")) 0 (.record "TVariant0" [] []), .object [])]
    ∀ p ∈ cases, ∃ g c, Graph.load ⟨[("a.json", p.1.render)]⟩ = .ok g ∧ g.compile = .ok c ∧
      p.2.1.Sorted ∧ c.encode "T" p.2.1 = .ok p.2.2 ∧ ¬∃ d', c.decode "T" p.2.2 = .ok d' := by
  intro object text one union tag cases p mem
  have runs : Bundle.compilesTo ⟨[("a.json", p.1.render)]⟩ (fun _ c => decide
      ((c.encode "T" p.2.1).toOption = some p.2.2 ∧ (c.decode "T" p.2.2).isOk = false)) = true := by
    rw [Bundle.compilesTo_eq]
    revert p
    decide +kernel
  have sorted : p.2.1.Sorted := by
    revert p
    simp [cases, Data.Sorted, Data.EntriesSorted, Json.Sorted, Json.MembersSorted, Assoc.Sorted]
  obtain ⟨g, c, load, compile, h⟩ := Bundle.exists_of_compilesTo runs
  obtain ⟨written, refused⟩ := of_decide_eq_true h
  refine ⟨g, c, load, compile, sorted, Outcome.toOption_eq_some.mp written, ?_⟩
  rintro ⟨d', read⟩
  rw [read] at refused
  cases refused

end TypedArchive
