import TypedArchive.Proofs.Binding.Fault
import TypedArchive.Proofs.Compile.Completeness

/-! The shape of a variant is computed while other unions are still missing from the catalog, and fits
whatever the variant's type reads in the finished one. -/

namespace TypedArchive

namespace Compile

theorem primitiveShape_accepts {p : Primitive} {v : Json} (holds : p.holds v = true) :
    (primitiveShape p).accepts v = true := by
  revert holds
  fun_cases Primitive.holds p v
  case case3 n =>
    intro holds
    cases n with
    | integer => rfl
    | double x => cases holds
  all_goals simp [primitiveShape, Shape.accepts]

theorem mem_requiredNames {fields : List Field} {key : String} (mem : key ∈ requiredNames fields) :
    ∃ f ∈ fields, f.optional = false ∧ f.name = key := by
  rw [requiredNames, Assoc.mem_sortedNames] at mem
  simpa [and_assoc] using mem

theorem plainShape_accepts {c : Catalog} {t : TypeRef} {v : Json} (accepts : c.Accepts t v) :
    (plainShape t).accepts v = true := by
  cases t with
  | named name => rfl
  | primitive p => exact primitiveShape_accepts (Catalog.accepts_primitive.mp accepts)
  | literal l =>
    rw [Catalog.accepts_literal.mp accepts]
    exact primitiveShape_accepts l.primitive_holds
  | array t =>
    obtain ⟨items, rfl, -⟩ := Catalog.accepts_array.mp accepts
    rfl
  | map t =>
    obtain ⟨members, rfl, -⟩ := Catalog.accepts_map.mp accepts
    rfl

/-- The shape of a type fits what the type accepts, also later in compilation. -/
theorem shapeOf_accepts {before c : Catalog} (kept : Extends before c) {t : TypeRef} {v : Json}
    (accepts : c.Accepts t v) : (shapeOf before t).accepts v = true := by
  cases t with
  | named name =>
    cases resolved : before.resolveAlias name with
    | none => simp [shapeOf, resolved, Shape.accepts]
    | some e =>
      obtain ⟨last, entry, accepts⟩ := accepts_of_resolveAlias kept resolved accepts
      cases type : e.type with
      | record fields =>
        obtain ⟨members, rfl, required, -⟩ := (Catalog.accepts_record entry type).mp accepts
        simp only [shapeOf, resolved, Option.map_some, type, Shape.accepts, List.all_eq_true]
        intro key mem
        obtain ⟨f, listed, needed, rfl⟩ := mem_requiredNames mem
        exact required f listed needed
      | enumeration values descriptions =>
        obtain ⟨l, mem, rfl⟩ := (Catalog.accepts_enumeration entry type).mp accepts
        simp only [shapeOf, resolved, Option.map_some, type]
        split
        · next p one =>
          have kind : l.primitive ∈ (values.map Literal.primitive).eraseDups :=
            List.mem_eraseDups.mpr (List.mem_map_of_mem mem)
          rw [one, List.mem_singleton] at kind
          exact kind ▸ primitiveShape_accepts l.primitive_holds
        · rfl
      | array t =>
        obtain ⟨items, rfl, -⟩ :=
          Catalog.accepts_array.mp ((Catalog.accepts_arrayEntry entry type).mp accepts)
        simp only [shapeOf, resolved, Option.map_some, type, Shape.accepts]
      | «alias» target =>
        simp only [shapeOf, resolved, Option.map_some, type]
        exact plainShape_accepts ((Catalog.accepts_alias entry type).mp accepts)
      | «union» discriminant variants => simp [shapeOf, resolved, type, Shape.accepts]
  | _ => exact plainShape_accepts accepts

section Variants

variable {g : Graph} {before c : Catalog} {unions : Branches} {u : PendingUnion}
  {discriminant : Option String} {variants : List Variant}

/-- Tagged variants have the shapes of their types. -/
theorem discriminated?_shapes {branches : List TypeRef}
    (h : discriminated? before branches = some (.union discriminant variants)) :
    ∀ variant ∈ variants, variant.shape = shapeOf before variant.type := by
  obtain ⟨records, -, h⟩ := Option.bind_eq_some_iff.mp h
  obtain ⟨⟨name, tags⟩, -, h⟩ := Option.bind_eq_some_iff.mp h
  cases h
  intro variant mem
  obtain ⟨p, -, rfl⟩ := List.mem_map.mp mem
  rfl

/-- Every variant of a resolved union has the shape of its type at that time. -/
theorem resolveUnion_shapes
    (h : resolveUnion g before unions u = .ok (.union discriminant variants)) :
    ∀ variant ∈ variants, variant.shape = shapeOf before variant.type := by
  rcases resolveUnion_cases g before unions u with
    ⟨branches, -, type, told, eq⟩ | ⟨j, -, eq⟩ | ⟨-, eq⟩ <;> cases h.symm.trans eq
  · exact discriminated?_shapes told
  · intro variant mem
    obtain ⟨t, -, rfl⟩ := List.mem_map.mp mem
    rfl

/-- The shape of a variant is that of its type in some catalog on the way. -/
theorem Compiled.shape {names : Names} {pending : List PendingUnion}
    (compiled : Compiled g c names pending) {name : String} {e : Entry}
    (entry : c.get? name = some e) (type : e.type = .union discriminant variants)
    {variant : Variant} (mem : variant ∈ variants) :
    ∃ before, Extends before c ∧ variant.shape = shapeOf before variant.type := by
  obtain ⟨u, waiting, rfl, -⟩ := compiled.union entry type
  obtain ⟨before, e', kept, entry', resolve⟩ := compiled.resolves u waiting
  cases entry.symm.trans entry'
  rw [type] at resolve
  exact ⟨before, kept, resolveUnion_shapes resolve variant mem⟩

/-- The shape of a variant fits what the type of the variant accepts. -/
theorem Compiled.shape_accepts {names : Names} {pending : List PendingUnion}
    (compiled : Compiled g c names pending) {name : String} {e : Entry}
    (entry : c.get? name = some e) (type : e.type = .union discriminant variants)
    {variant : Variant} (mem : variant ∈ variants) {v : Json}
    (accepts : c.Accepts variant.type v) : variant.shape.accepts v = true := by
  obtain ⟨before, kept, shape⟩ := compiled.shape entry type mem
  rw [shape]
  exact shapeOf_accepts kept accepts

end Variants

/-! ### Entries stand under their names -/

theorem keyed_insert {c : Catalog} (keyed : c.Keyed) (e : Entry) : (c.insert e).Keyed := by
  intro p mem
  rcases Assoc.mem_insert mem with rfl | mem
  · rfl
  · exact keyed p mem

theorem Inv.keyed {g : Graph} {s : State} (inv : Inv g [] s) : s.catalog.Keyed := by
  intro p mem
  have entry : s.catalog.get? p.1 = some p.2 := Assoc.get?_of_mem inv.sorted.keys_nodup mem
  have taken : p.1 ∈ s.taken := inv.enteredTaken p.1 (List.mem_map_of_mem mem)
  rw [inv.taken] at taken
  obtain ⟨⟨i, name⟩, owned, rfl⟩ := List.mem_map.mp taken
  cases inv.status i _ owned with
  | opened mem => cases mem
  | entered _ entry' named =>
    cases entry.symm.trans entry'
    exact named
  | queued _ absent =>
    cases entry.symm.trans absent

theorem finish_keyed {g : Graph} {unions : Branches} {pending : List PendingUnion}
    {c c' : Catalog} (keyed : c.Keyed) (h : pending.foldlM (finishUnion g unions) c = .ok c') :
    c'.Keyed := by
  induction pending generalizing c with
  | nil =>
    cases h
    exact keyed
  | cons u pending ih =>
    rw [List.foldlM_cons] at h
    obtain ⟨next, first, h⟩ := Outcome.bind_eq_ok.mp h
    obtain ⟨type, -, eq⟩ := Outcome.bind_eq_ok.mp first
    cases eq
    exact ih (keyed_insert keyed _) h

/-- In a compiled catalog every entry stands under its own name. -/
theorem keyed_of_compile {g : Graph} {c : Catalog} (h : g.compile = .ok c) : c.Keyed := by
  rw [Graph.compile] at h
  obtain ⟨⟨_, s⟩, build, h⟩ := Outcome.bind_eq_ok.mp h
  obtain ⟨catalog, finish, h⟩ := Outcome.bind_eq_ok.mp h
  obtain ⟨_, -, eq⟩ := Outcome.bind_eq_ok.mp h
  cases eq
  exact finish_keyed (buildEntries_ok build).1.keyed finish

end Compile

/-- In a compiled catalog the shape of a variant fits every value that the variant's type reads.
So when decoding reports that no variant of a union matches, the union has no discriminant and none
of its variants' types reads the value at that place. -/
theorem Graph.shape_accepts_of_compile {g : Graph} {c : Catalog} (compile : g.compile = .ok c) :
    (∀ name e discriminant variants, c.get? name = some e →
      e.type = .union discriminant variants → ∀ variant ∈ variants, ∀ v path d,
        Decode.value c v variant.type path = .ok d → variant.shape.accepts v = true) ∧
    ∀ name v, v.Sorted → ∀ path typeName,
      c.decode name v = .error (.noMatchingVariant path typeName) → ∃ w e variants,
        v.at? path = some w ∧ c.get? typeName = some e ∧ e.type = .union none variants ∧
        ∀ variant ∈ variants, ∀ path' d, Decode.value c w variant.type path' ≠ .ok d := by
  obtain ⟨names, pending, compiled⟩ := Compile.compile_ok compile
  refine ⟨fun name e discriminant variants entry type variant mem v path d decoded => ?_,
    fun name v sorted path typeName fails => ?_⟩
  · exact compiled.shape_accepts entry type mem ⟨d, Decode.reads_of_value decoded⟩
  · obtain ⟨place, w, t, leads, refuses⟩ := Decode.refuses_of_value sorted fails
    rw [List.nil_append] at refuses
    obtain ⟨rfl, key, e, variants, entry, named, type, misses⟩ := refuses.shapes
    rw [(Compile.keyed_of_compile compile).name_eq entry] at named
    subst named
    refine ⟨w, e, variants, leads, entry, type, fun variant mem path' d decoded => ?_⟩
    have fits := compiled.shape_accepts entry type mem ⟨d, Decode.reads_of_value decoded⟩
    rw [misses variant mem] at fits
    cases fits

set_option maxRecDepth 100000 in
/-- A text or a record that holds the same: the shape of the record fits what the record reads, and
the value that no variant matches stands two records deep. -/
theorem Graph.shape_accepts_of_recursive :
    let text : Json := .object [("type", .string "string")]
    let ref (name : String) : Json := .object [("$ref", .string ("#/definitions/" ++ name))]
    let record : Json := .object
      [("properties", .object [("u", ref "u")]), ("required", .array [.string "u"])]
    let union : Json := .object [("oneOf", .array [text, ref "r"])]
    let schema : Json := .object [("definitions", .object [("r", record), ("u", union)])]
    let v : Json := .object [("u", .object [("u", .null)])]
    let path : FieldPath := [.key "u", .key "u"]
    ∃ g c e variants, Graph.load ⟨[("a.json", schema.render)]⟩ = .ok g ∧ g.compile = .ok c ∧
      c.get? "U" = some e ∧ e.type = .union none variants ∧
      ⟨none, .named "R", .object ["u"]⟩ ∈ variants ∧
      (∀ w d, c.decode "R" w = .ok d → (Shape.object ["u"]).accepts w = true) ∧
      v.Sorted ∧ c.decode "R" v = .error (.noMatchingVariant path "U") ∧ v.at? path = some .null ∧
      ∀ d, c.decode "R" .null ≠ .ok d := by
  intro text ref record union schema v path
  let variants : List Variant :=
    [⟨none, .primitive .string, .string⟩, ⟨none, .named "R", .object ["u"]⟩]
  have runs : Bundle.compilesTo ⟨[("a.json", schema.render)]⟩ (fun _ c => decide
      ((c.get? "U").map Entry.type = some (.union none variants) ∧
        (match c.decode "R" v with
          | .error err => some err
          | .ok _ => none) = some (.noMatchingVariant path "U"))) = true := by
    rw [Bundle.compilesTo_eq]
    decide +kernel
  obtain ⟨g, c, load, compile, h⟩ := Bundle.exists_of_compilesTo runs
  obtain ⟨union, refused⟩ := of_decide_eq_true h
  obtain ⟨e, entry, type⟩ := Option.map_eq_some_iff.mp union
  have listed : ⟨none, .named "R", .object ["u"]⟩ ∈ variants :=
    List.mem_cons_of_mem _ List.mem_cons_self
  have sorted : v.Sorted := by decide
  have refused : c.decode "R" v = .error (.noMatchingVariant path "U") := by
    split at refused
    · next err fails => rw [fails, Option.some.inj refused]
    · cases refused
  obtain ⟨fits, misses⟩ := Graph.shape_accepts_of_compile compile
  obtain ⟨w, e', variants', leads, entry', type', none⟩ := misses "R" v sorted path "U" refused
  cases entry.symm.trans entry'
  cases type.symm.trans type'
  obtain rfl : .null = w := Option.some.inj leads
  refine ⟨g, c, e, variants, load, compile, entry, type, listed, fun w d decoded => ?_, sorted,
    refused, leads, fun d decoded => ?_⟩
  · exact fits "U" e _ variants entry type _ listed w [] d decoded
  · exact none _ listed [] d decoded

end TypedArchive
