import TypedArchive.Proofs.Binding.Place
import TypedArchive.Proofs.Compile.WellFormed

/-! Objects that the decoder reads as records may hold members that their records do not declare, at
any depth. Where a union is told by a field, that field is declared, so such a member leads to no
other variant. -/

namespace TypedArchive

namespace Catalog

/-- The decoder reads the object at a place as a record that declares some fields, and goes there
through no union without a discriminant. -/
inductive RecordAt (c : Catalog) : TypeRef → Json → FieldPath → List Field → Prop
  | here {name : String} {e : Entry} {declared : List Field} {members : List (String × Json)}
      (entry : c.get? name = some e) (type : e.type = .record declared) :
      RecordAt c (.named name) (.object members) [] declared
  | field {name : String} {e : Entry} {fields declared : List Field} {f : Field}
      {members : List (String × Json)} {w : Json} {path : FieldPath} (entry : c.get? name = some e)
      (type : e.type = .record fields) (mem : f ∈ fields)
      (found : Assoc.get? members f.name = some w) (h : RecordAt c f.type w path declared) :
      RecordAt c (.named name) (.object members) (.key f.name :: path) declared
  | item {t : TypeRef} {items : List Json} {i : Nat} {w : Json} {path : FieldPath}
      {declared : List Field} (found : items[i]? = some w) (h : RecordAt c t w path declared) :
      RecordAt c (.array t) (.array items) (.index i :: path) declared
  | entry {t : TypeRef} {members : List (String × Json)} {key : String} {w : Json}
      {path : FieldPath} {declared : List Field} (found : Assoc.get? members key = some w)
      (h : RecordAt c t w path declared) :
      RecordAt c (.map t) (.object members) (.key key :: path) declared
  | arrayEntry {name : String} {e : Entry} {t : TypeRef} {v : Json} {path : FieldPath}
      {declared : List Field} (entry : c.get? name = some e) (type : e.type = .array t)
      (h : RecordAt c (.array t) v path declared) : RecordAt c (.named name) v path declared
  | alias {name : String} {e : Entry} {t : TypeRef} {v : Json} {path : FieldPath}
      {declared : List Field} (entry : c.get? name = some e) (type : e.type = .alias t)
      (h : RecordAt c t v path declared) : RecordAt c (.named name) v path declared
  | variant {name discriminant : String} {e : Entry} {variants : List Variant} {v : Json}
      {index : Nat} {variant : Variant} {tag : Option Literal} {path : FieldPath}
      {declared : List Field} (entry : c.get? name = some e)
      (type : e.type = .union (some discriminant) variants)
      (select : Decode.selectVariant e.name (some discriminant) variants v [] =
        .ok (index, variant, tag))
      (h : RecordAt c variant.type v path declared) : RecordAt c (.named name) v path declared

/-- The variants of a union with a discriminant lead to records that fix it to a literal. -/
def FixesTags (c : Catalog) : Prop :=
  ∀ name e discriminant variants, c.get? name = some e →
    e.type = .union (some discriminant) variants → ∀ v ∈ variants, ∃ fields l,
      c.LeadsTo v.type fields ∧ ∃ f ∈ fields, f.name = discriminant ∧ f.type = .literal l

variable {c : Catalog} {t : TypeRef} {v : Json} {path : FieldPath} {declared : List Field}

/-- At the place stands an object. -/
theorem RecordAt.at?_eq (h : c.RecordAt t v path declared) :
    ∃ members, v.at? path = some (.object members) := by
  induction h with
  | here => exact ⟨_, rfl⟩
  | field _ _ _ found _ ih | entry found _ ih =>
    rw [Json.at?_key found]
    exact ih
  | item found _ ih =>
    rw [Json.at?_index found]
    exact ih
  | arrayEntry _ _ _ ih | «alias» _ _ _ ih | «variant» _ _ _ _ ih => exact ih

variable {key : String} {w : Json} (new : ∀ f ∈ declared, f.name ≠ key)

include new

/-- A field that a record fixes to a literal keeps its value: it is declared, and there is no record
inside it. -/
theorem RecordAt.get?_fixed (distinct : c.FieldsDistinct) {fields : List Field}
    (leads : c.LeadsTo t fields) {f : Field} (mem : f ∈ fields) {l : Literal}
    (fixed : f.type = .literal l) {members : List (String × Json)}
    (h : c.RecordAt t (.object members) path declared) : ∃ members',
      (Json.object members).modifyAt (Json.setMember key w) path = .object members' ∧
        Assoc.get? members' f.name = Assoc.get? members f.name := by
  induction leads with
  | record entry type =>
    cases h with
    | here entry' type' =>
      cases entry.symm.trans entry'
      cases type.symm.trans type'
      exact ⟨_, rfl, Assoc.get?_insert_of_ne members w (new f mem)⟩
    | field entry' type' mem' found h =>
      cases entry.symm.trans entry'
      cases type.symm.trans type'
      refine ⟨_, rfl, ?_⟩
      rw [Assoc.get?_modify, if_neg]
      intro same
      cases List.inj_on_of_nodup_map (distinct.record entry type) mem mem' same
      rw [fixed] at h
      cases h
    | _ => simp_all
  | «alias» entry type _ ih =>
    cases h with
    | «alias» entry' type' h =>
      cases entry.symm.trans entry'
      cases type.symm.trans type'
      exact ih mem h
    | _ => simp_all

/-- A new member of a record inside a value leaves the choice of a variant by its tag as it is. -/
theorem RecordAt.selectVariant_eq (distinct : c.FieldsDistinct) (tags : c.FixesTags)
    {name discriminant : String} {e : Entry} {variants : List Variant}
    (entry : c.get? name = some e) (type : e.type = .union (some discriminant) variants)
    {index : Nat} {variant : Variant} {tag : Option Literal}
    (select : Decode.selectVariant e.name (some discriminant) variants v [] =
      .ok (index, variant, tag))
    (h : c.RecordAt variant.type v path declared) :
    Decode.selectVariant e.name (some discriminant) variants
      (v.modifyAt (Json.setMember key w) path) [] = .ok (index, variant, tag) := by
  cases v with
  | object members =>
    have listed : variant ∈ variants := List.mem_of_getElem? (Decode.selectVariant_index select)
    obtain ⟨fields, l, leads, f, mem, rfl, fixed⟩ :=
      tags name e discriminant variants entry type variant listed
    obtain ⟨members', eq, same⟩ := h.get?_fixed (w := w) new distinct leads mem fixed
    rw [eq, ← select, Decode.selectVariant, Decode.selectVariant]
    change Assoc.get? members' f.name = Assoc.get? members f.name at same
    simp only [Assoc.get?] at same
    rw [same]
  | _ => cases select

/-- A new member of a record inside a value that reads as a type is a new unknown member of that
record's data, and nothing else. -/
theorem RecordAt.follows (distinct : c.FieldsDistinct) (tags : c.FixesTags) (sorted : v.Sorted)
    (h : c.RecordAt t v path declared) : c.Follows t v (Json.modifyAt (Json.setMember key w) path)
      (Data.modifyAt (Data.modifyRecord (Record.setExtra key w)) path) := by
  induction h with
  | here entry type =>
    exact follows_setMember entry type (Json.sorted_object.mp sorted).1 new w
  | field entry type mem found _ ih =>
    obtain ⟨keys, values⟩ := Json.sorted_object.mp sorted
    have part := ih new (values _ (Assoc.mem_of_get? found))
    exact Follows.field entry type (distinct.record entry type) mem found part
  | item found _ ih =>
    have part := ih new (Json.sorted_array.mp sorted _ (List.mem_of_getElem? found))
    exact Follows.item found part
  | entry found _ ih =>
    obtain ⟨keys, values⟩ := Json.sorted_object.mp sorted
    have part := ih new (values _ (Assoc.mem_of_get? found))
    exact Follows.entry keys found part
  | arrayEntry entry type _ ih =>
    intro d read
    cases read with
    | arrayEntry entry' type' read =>
      cases entry.symm.trans entry'
      cases type.symm.trans type'
      exact .arrayEntry entry type (ih new sorted d read)
    | _ => simp_all
  | «alias» entry type _ ih =>
    intro d read
    cases read with
    | «alias» entry' type' read =>
      cases entry.symm.trans entry'
      cases type.symm.trans type'
      exact .alias entry type (ih new sorted d read)
    | _ => simp_all
  | «variant» entry type select h ih =>
    intro d read
    cases read with
    | «union» entry' type' select' read =>
      cases entry.symm.trans entry'
      cases type.symm.trans type'
      cases select.symm.trans select'
      rw [Data.modifyAt_union]
      exact .union entry type (h.selectVariant_eq new distinct tags entry type select)
        (ih new sorted _ read)
    | _ => simp_all

end Catalog

theorem Compile.Compiled.fixesTags {g : Graph} {c : Catalog} {names : Names}
    {pending : List PendingUnion} (compiled : Compiled g c names pending) : c.FixesTags := by
  intro name e discriminant variants entry type v mem
  obtain ⟨tag, fields, -, leads, fixed⟩ := (compiled.tagged entry type).2 v mem
  exact ⟨fields, tag, leads, fixed⟩

/-- Forward compatibility: a value that decodes still does when any record in it, outside of unions
without a discriminant, is given a member that the record does not declare. The data then has that
member among the unknown ones of that record and is the same otherwise, and it is written back as the
value with the new member. -/
theorem Graph.decode_setMember_of_compile {b : Bundle} {g : Graph} {c : Catalog}
    (load : Graph.load b = .ok g) (compile : g.compile = .ok c) {name : String} {v : Json}
    (sorted : v.Sorted) {d : Data} (decoded : c.decode name v = .ok d) {path : FieldPath}
    {declared : List Field} (record : c.RecordAt (.named name) v path declared) {key : String}
    (new : ∀ f ∈ declared, f.name ≠ key) {w : Json} (member : w.Sorted) :
    let v' := v.modifyAt (Json.setMember key w) path
    let d' := d.modifyAt (Data.modifyRecord (Record.setExtra key w)) path
    c.decode name v' = .ok d' ∧ c.encode name d' = .ok v' ∧
      v'.at? (path.pushKey key) = some w := by
  intro v' d'
  obtain ⟨names, pending, compiled⟩ := Compile.compile_ok compile
  have distinct := Graph.fieldsDistinct_of_compile load compile
  have read : c.Reads (.named name) v' d' :=
    record.follows new distinct compiled.fixesTags sorted d (Catalog.decode_eq_ok_iff.mp decoded)
  have decoded' : c.decode name v' = .ok d' := Catalog.decode_eq_ok_iff.mpr read
  have sorted' : v'.Sorted := sorted.modifyAt fun _ object => object.setMember member
  obtain ⟨members, place⟩ := record.at?_eq
  exact ⟨decoded', (Catalog.encode_decode distinct sorted' decoded').1, Json.at?_setMember place⟩

set_option maxRecDepth 100000 in
/-- A record in a map inside a variant is given a member of the name that tells the variants apart. -/
theorem Graph.decode_setMember_nested :
    let ref (name : String) : Json := .object [("$ref", .string ("#/$defs/" ++ name))]
    let object (properties : Json) : Json := .object [("properties", properties)]
    let tag (kind : String) : Json := .object [("const", .string kind)]
    let map : Json := .object [("additionalProperties", ref "toy")]
    let schema : Json := .object [("$defs", .object
      [("cat", object (.object [("k", tag "cat"), ("toys", map)])),
        ("dog", object (.object [("k", tag "dog")])),
        ("pet", .object [("oneOf", .array [ref "cat", ref "dog"])]),
        ("toy", object (.object [("n", .object [("type", .string "string")])]))])]
    let pet (toy : Json) : Json :=
      .object [("k", .string "cat"), ("toys", .object [("x", toy)])]
    let read (extra : List (String × Json)) : Data :=
      .union "Pet" (some (.string "cat")) 0 (.record "Cat" [("k", .string "cat"),
        ("toys", .map [("x", .record "Toy" [("n", .string "ball")] extra)])] [])
    let v := pet (.object [("n", .string "ball")])
    let v' := pet (.object [("k", .null), ("n", .string "ball")])
    let path : FieldPath := [.key "toys", .key "x"]
    let declared : List Field := [⟨"n", .primitive .string, true, none⟩]
    ∃ g c, Graph.load ⟨[("a.json", schema.render)]⟩ = .ok g ∧ g.compile = .ok c ∧ v.Sorted ∧
      c.decode "Pet" v = .ok (read []) ∧ c.RecordAt (.named "Pet") v path declared ∧
      (∀ f ∈ declared, f.name ≠ "k") ∧ c.decode "Pet" v' = .ok (read [("k", .null)]) ∧
      c.encode "Pet" (read [("k", .null)]) = .ok v' := by
  intro ref object tag map schema pet read v v' path declared
  let fields : List Field := [⟨"k", .literal (.string "cat"), true, none⟩,
    ⟨"toys", .map (.named "Toy"), true, none⟩]
  let variants : List Variant := [⟨some (.string "cat"), .named "Cat", .object []⟩,
    ⟨some (.string "dog"), .named "Dog", .object []⟩]
  have runs : Bundle.compilesTo ⟨[("a.json", schema.render)]⟩ (fun _ c => decide
      ((c.get? "Pet").map Entry.type = some (.union (some "k") variants) ∧
        (c.get? "Cat").map Entry.type = some (.record fields) ∧
        (c.get? "Toy").map Entry.type = some (.record declared) ∧
        (c.decode "Pet" v).toOption = some (read []))) = true := by
    rw [Bundle.compilesTo_eq]
    decide +kernel
  obtain ⟨g, c, load, compile, h⟩ := Bundle.exists_of_compilesTo runs
  obtain ⟨union, cat, toy, decoded⟩ := of_decide_eq_true h
  obtain ⟨_, union, unionType⟩ := Option.map_eq_some_iff.mp union
  obtain ⟨_, cat, catType⟩ := Option.map_eq_some_iff.mp cat
  obtain ⟨_, toy, toyType⟩ := Option.map_eq_some_iff.mp toy
  have decoded := Outcome.toOption_eq_some.mp decoded
  have sorted : v.Sorted := by decide
  have new : ∀ f ∈ declared, f.name ≠ "k" := by decide
  have inside : c.RecordAt (.named "Cat") v path declared :=
    .field (f := ⟨"toys", .map (.named "Toy"), true, none⟩) cat catType
      (List.mem_cons_of_mem _ List.mem_cons_self) rfl (.entry rfl (.here toy toyType))
  have record : c.RecordAt (.named "Pet") v path declared := .variant union unionType rfl inside
  obtain ⟨decoded', written, -⟩ := Graph.decode_setMember_of_compile load compile sorted decoded
    record new (w := .null) (by decide)
  exact ⟨g, c, load, compile, sorted, decoded, record, new, decoded', written⟩

end TypedArchive
