import TypedArchive.Proofs.Archive.RoundTrip
import TypedArchive.Proofs.Compile.Soundness

/-! The references to assets in a value and in the data that is read from it. Both readers find the
same ones, but for objects that are read as maps: a map is not looked at as a reference itself. -/

namespace TypedArchive

namespace Data

theorem asString?_toJson : (d : Data) → d.toJson.asString? = d.asString?
  | .null | .boolean _ | .integer _ | .number _ | .string _ | .array _ | .map _ | .record .. => rfl
  | .unknown _ => rfl
  | .enumeration _ l => by cases l <;> rfl
  | .union _ _ _ d => asString?_toJson d

mutual

/-- In a record no key is both a field and a member beside the fields, and each occurs once. -/
def Separate : Data → Prop
  | .array items => ItemsSeparate items
  | .map entries => EntriesSeparate entries
  | .record _ fields extra =>
    ((fields.map Prod.fst).Nodup ∧ ∀ p ∈ fields, p.1 ∉ Assoc.keys extra) ∧ EntriesSeparate fields
  | .union _ _ _ d => d.Separate
  | .null | .boolean _ | .integer _ | .number _ | .string _ | .enumeration .. | .unknown _ => True

def ItemsSeparate : List Data → Prop
  | [] => True
  | d :: rest => d.Separate ∧ ItemsSeparate rest

def EntriesSeparate : List (String × Data) → Prop
  | [] => True
  | (_, d) :: rest => d.Separate ∧ EntriesSeparate rest

end

theorem itemsSeparate_iff {items : List Data} : ItemsSeparate items ↔ ∀ d ∈ items, d.Separate := by
  induction items with
  | nil => simp [ItemsSeparate]
  | cons d rest ih => rw [ItemsSeparate, ih, List.forall_mem_cons]

theorem entriesSeparate_iff {entries : List (String × Data)} :
    EntriesSeparate entries ↔ ∀ p ∈ entries, p.2.Separate := by
  induction entries with
  | nil => simp [EntriesSeparate]
  | cons p rest ih =>
    obtain ⟨k, d⟩ := p
    rw [EntriesSeparate, ih, List.forall_mem_cons]

end Data

theorem Decode.primitive_separate {p : Primitive} {v : Json} {path : FieldPath} {d : Data}
    (h : primitive p v path = .ok d) : d.Separate := by
  revert h
  fun_cases primitive p v path with
  | case4 | case8 =>
    intro h
    cases h
  | _ =>
    intro h
    cases h
    trivial

/-- What is read keeps fields and other members apart. -/
theorem Catalog.Reads.separate {c : Catalog} (distinct : c.FieldsDistinct) {t : TypeRef} {v : Json}
    {d : Data} (h : c.Reads t v d) : d.Separate := by
  induction h with
  | primitive h => exact Decode.primitive_separate h
  | literal h =>
    rw [Decode.literal] at h
    split at h
    · exact Decode.primitive_separate h
    · cases h
  | array length each ih =>
    rw [Data.Separate, Data.itemsSeparate_iff]
    intro d mem
    obtain ⟨w, both⟩ := Outcome.exists_mem_zip_right length mem
    exact ih _ both
  | map keys each ih =>
    rw [Data.Separate, Data.entriesSeparate_iff]
    intro p mem
    obtain ⟨m, both⟩ := Outcome.exists_mem_zip_right (Outcome.length_of_map_eq keys) mem
    exact ih _ both
  | @record name e declared members read entry type required names each ih =>
    rw [Data.Separate, Data.entriesSeparate_iff]
    have keys := (Assoc.sorted_ofList read).keys_nodup
    refine ⟨⟨keys, fun p mem has => ?_⟩, fun p mem => ?_⟩
    · obtain ⟨f, hf, eq⟩ := (mem_keys_read names).mp (List.mem_map_of_mem mem)
      obtain ⟨w, found⟩ := Assoc.contains_iff_exists.mp (Assoc.contains_iff_mem_keys.mpr has)
      rw [get?_undeclared, ← eq, if_pos (declares_iff.mpr (List.mem_map_of_mem hf.1))] at found
      cases found
    · obtain ⟨f, hf, eq⟩ := (mem_keys_read names).mp (List.mem_map_of_mem mem)
      have found := Assoc.get?_of_mem keys mem
      rw [← eq] at found
      obtain ⟨q, both, rfl, eq'⟩ := get?_read (distinct.record entry type) names hf.1 found
      obtain ⟨w, hw⟩ := Assoc.contains_iff_exists.mp hf.2
      exact eq' ▸ ih q both w hw
  | enumeration entry type h =>
    obtain ⟨l, -, -, rfl⟩ := Decode.enumeration_ok.mp h
    trivial
  | arrayEntry entry type h ih => exact ih
  | «alias» entry type h ih => exact ih
  | «union» entry type select h ih => exact ih

namespace Archive.ReferenceConvention

variable (conv : ReferenceConvention)

/-- The reference that a map would be, were it looked at as one. -/
def readMap (entries : Assoc Data) : Option FileRef :=
  conv.read fun key => (entries.get? key).bind Data.asString?

mutual

/-- The paths of the asset references among the maps in a value. -/
def mapAssets : Data → List String
  | .record _ fields _ => mapEntryAssets fields
  | .array items => mapItemAssets items
  | .map entries => conv.assetPath? (conv.readMap entries) ++ mapEntryAssets entries
  | .union _ _ _ d => mapAssets d
  | .null | .boolean _ | .integer _ | .number _ | .string _ | .enumeration .. | .unknown _ => []

def mapItemAssets : List Data → List String
  | [] => []
  | d :: rest => mapAssets d ++ mapItemAssets rest

def mapEntryAssets : List (String × Data) → List String
  | [] => []
  | (_, d) :: rest => mapAssets d ++ mapEntryAssets rest

end

theorem bind_asString?_toJson (d : Option Data) :
    (d.map Data.toJson).bind Json.asString? = d.bind Data.asString? := by
  cases d with
  | none => rfl
  | some d => exact d.asString?_toJson

theorem readJson_map (entries : Assoc Data) :
    conv.readJson (.object (Data.entriesToJson entries)) = conv.readMap entries := by
  refine congrArg conv.read (funext fun key => ?_)
  rw [Json.get?, Data.get?_entriesToJson, bind_asString?_toJson]

section Record

variable {fields : List (String × Data)} {extra : List (String × Json)}
  (distinct : (fields.map Prod.fst).Nodup) (apart : ∀ p ∈ fields, p.1 ∉ Assoc.keys extra)

include distinct apart

theorem overlay_perm :
    (Data.overlay extra (Data.entriesToJson fields)).Perm (Data.entriesToJson fields ++ extra) := by
  rw [Data.overlay_eq_insertAll, Data.entriesToJson_eq]
  refine Assoc.insertAll_perm extra ?_ (List.forall_mem_map.mpr apart)
  rwa [List.map_map]

/-- A record is read as the same reference as its JSON. -/
theorem readJson_record (typeName : String) :
    conv.readJson (.object (Data.overlay extra (Data.entriesToJson fields))) =
      conv.readRecord { typeName, fields, extra } := by
  refine congrArg conv.read (funext fun key => ?_)
  rw [Json.get?, Data.overlay_eq_insertAll, Data.get?_overlay distinct, textOf, Record.getString?,
    Record.get?]
  cases found : Assoc.get? fields key with
  | some d =>
    have absent : Assoc.get? extra key = none :=
      Assoc.get?_eq_none_iff.mpr (apart _ (Assoc.mem_of_get? found))
    rw [Option.map_some, Option.some_or, absent, Option.bind_some, Option.bind_some,
      d.asString?_toJson, Option.bind_none]
    cases d.asString? <;> rfl
  | none => rfl

end Record

theorem memberAssets_eq_flatMap (members : List (String × Json)) :
    conv.memberAssets members = members.flatMap fun p => conv.jsonAssets p.2 := by
  induction members with
  | nil => rfl
  | cons p rest ih => rw [memberAssets, ih, List.flatMap_cons]

theorem mem_memberAssets_overlay {fields : List (String × Data)} {extra : List (String × Json)}
    (distinct : (fields.map Prod.fst).Nodup) (apart : ∀ p ∈ fields, p.1 ∉ Assoc.keys extra)
    {path : String} : path ∈ conv.memberAssets (Data.overlay extra (Data.entriesToJson fields)) ↔
      path ∈ conv.memberAssets (Data.entriesToJson fields) ∨ path ∈ conv.memberAssets extra := by
  simp only [memberAssets_eq_flatMap]
  rw [((overlay_perm distinct apart).flatMap_right _).mem_iff, List.flatMap_append, List.mem_append]

variable {conv}

mutual

/-- The JSON of a value holds the references that are found in the value, and those that it has as
maps. -/
theorem mem_jsonAssets_toJson (path : String) : {d : Data} → d.Separate →
    (path ∈ conv.jsonAssets d.toJson ↔ path ∈ conv.dataAssets d ∨ path ∈ conv.mapAssets d)
  | .record typeName fields extra, h => by
    obtain ⟨⟨distinct, apart⟩, entries⟩ := h
    have inner := mem_memberAssets_toJson path entries
    rw [Data.toJson, jsonAssets, dataAssets, mapAssets,
      readJson_record conv distinct apart typeName]
    simp only [List.mem_append, mem_memberAssets_overlay conv distinct apart, inner]
    tauto
  | .map entries, h => by
    have inner := mem_memberAssets_toJson path h
    rw [Data.toJson, jsonAssets, dataAssets, mapAssets, readJson_map]
    simp only [List.mem_append, inner]
    tauto
  | .array items, h => by
    rw [Data.toJson, jsonAssets, dataAssets, mapAssets]
    exact mem_itemAssets_toJson path h
  | .union _ _ _ d, h => by
    rw [Data.toJson, dataAssets, mapAssets]
    exact mem_jsonAssets_toJson path (d := d) h
  | .unknown v, _ => by
    rw [Data.toJson, dataAssets, mapAssets]
    exact (or_iff_left List.not_mem_nil).symm
  | .enumeration _ l, _ => by
    cases l <;> simp [Data.toJson, Literal.toJson, Json.ofInt64, jsonAssets, dataAssets, mapAssets]
  | .null, _ | .boolean _, _ | .integer _, _ | .number _, _ | .string _, _ => by
    simp [Data.toJson, Json.ofInt64, jsonAssets, dataAssets, mapAssets]

theorem mem_itemAssets_toJson (path : String) : {items : List Data} → Data.ItemsSeparate items →
    (path ∈ conv.itemAssets (Data.itemsToJson items) ↔
      path ∈ conv.dataItemAssets items ∨ path ∈ conv.mapItemAssets items)
  | [], _ => by simp [Data.itemsToJson, itemAssets, dataItemAssets, mapItemAssets]
  | d :: rest, h => by
    rw [Data.itemsToJson, itemAssets, dataItemAssets, mapItemAssets]
    simp only [List.mem_append, mem_jsonAssets_toJson path h.1, mem_itemAssets_toJson path h.2]
    exact or_or_or_comm

theorem mem_memberAssets_toJson (path : String) : {entries : List (String × Data)} →
    Data.EntriesSeparate entries → (path ∈ conv.memberAssets (Data.entriesToJson entries) ↔
      path ∈ conv.entryAssets entries ∨ path ∈ conv.mapEntryAssets entries)
  | [], _ => by simp [Data.entriesToJson, memberAssets, entryAssets, mapEntryAssets]
  | (_, d) :: rest, h => by
    rw [Data.entriesToJson, memberAssets, entryAssets, mapEntryAssets]
    simp only [List.mem_append, mem_jsonAssets_toJson path h.1, mem_memberAssets_toJson path h.2]
    exact or_or_or_comm

end

end Archive.ReferenceConvention

/-- The references to assets in JSON are those in the data that it is read as, and those in the
maps of this data. -/
theorem Catalog.Reads.mem_jsonAssets {c : Catalog} (distinct : c.FieldsDistinct) {t : TypeRef}
    {v : Json} (sorted : v.Sorted) {d : Data} (h : c.Reads t v d)
    (conv : Archive.ReferenceConvention) (path : String) :
    path ∈ conv.jsonAssets v ↔ path ∈ conv.dataAssets d ∨ path ∈ conv.mapAssets d := by
  have json : d.toJson = v := (h.inverse distinct sorted).1
  rw [← json]
  exact Archive.ReferenceConvention.mem_jsonAssets_toJson path (h.separate distinct)

namespace Archive

open Zip (StoredFile)

namespace Piece

variable (conv : ReferenceConvention)

/-- The paths of the asset references that are found in a piece. -/
def assets : Piece → List String
  | document r | metadata r | page _ r => conv.recordAssets r
  | user d => conv.dataAssets d
  | workspace _ v => conv.jsonAssets v
  | asset .. => []

/-- The paths of the asset references among the maps in a piece. -/
def mapAssets : Piece → List String
  | document r | metadata r | page _ r => conv.mapAssets r.toData
  | user d => conv.mapAssets d
  | workspace .. | asset .. => []

end Piece

namespace Contents

variable (g : Contents)

/-- The asset references among the maps in contents, which no check looks at. -/
def mapRefs : List String := g.draft.pieces.flatMap (Piece.mapAssets g.references)

theorem assetRefs_eq : g.assetRefs =
    Assoc.sortedNames (g.draft.pieces.flatMap (Piece.assets g.references)) := by
  have user : (g.user.map g.references.dataAssets).getD [] =
      (g.user.toList.map Piece.user).flatMap (Piece.assets g.references) := by
    cases g.user with
    | none => rfl
    | some d => exact (List.append_nil _).symm
  have assets : (g.assets.map fun p => Piece.asset p.1 p.2).flatMap
      (Piece.assets g.references) = [] := by
    rw [List.flatMap_map]
    exact List.flatMap_eq_nil_iff.mpr fun _ _ => rfl
  rw [assetRefs, user]
  simp only [draft, Draft.pieces, Assoc.values, List.flatMap_append, List.flatMap_map, assets,
    Option.toList_some, List.map_cons, List.map_nil, List.flatMap_cons, List.flatMap_nil,
    List.append_nil, List.append_assoc]
  rfl

theorem mem_assetRefs {path : String} :
    path ∈ g.assetRefs ↔ ∃ p ∈ g.draft.pieces, path ∈ p.assets g.references := by
  rw [assetRefs_eq, Assoc.mem_sortedNames, List.mem_flatMap]

theorem validateAssets_eq_ok : g.validateAssets = .ok () ↔
    ∀ path ∈ g.assetRefs, (resolveAsset? g.assets path).isSome = true := by
  have resolved : (g.assetRefs.find? fun path => (resolveAsset? g.assets path).isNone) = none ↔
      ∀ path ∈ g.assetRefs, (resolveAsset? g.assets path).isSome = true := by
    simp [List.find?_eq_none, Option.isSome_iff_ne_none]
  rw [validateAssets, ← resolved]
  split
  · next found => simp [found]
  · next none => simp [none]

theorem mem_mapRefs {path : String} :
    path ∈ g.mapRefs ↔ ∃ p ∈ g.draft.pieces, path ∈ p.mapAssets g.references := by
  rw [mapRefs, List.mem_flatMap]

end Contents

/-- The paths of the asset references in an entry. -/
def ArchiveEntry.assets (conv : ReferenceConvention) (e : ArchiveEntry) : List String :=
  match e.content with
  | .json v => conv.jsonAssets v
  | .binary _ => []

namespace Codec

variable {c : Codec}

theorem mem_assets_of_record (distinct : c.bindings.catalog.FieldsDistinct) {v : Json}
    (sorted : v.Sorted) {path expected : String} {r : Record}
    (h : c.decodeRecord path v expected = .ok r) (conv : ReferenceConvention) (name : String) :
    name ∈ conv.jsonAssets v ↔ name ∈ conv.recordAssets r ∨ name ∈ conv.mapAssets r.toData :=
  (Catalog.decode_eq_ok_iff.mp (decodeRecord_ok h)).mem_jsonAssets distinct sorted conv name

/-- An entry has the references to assets that are found in its piece, and those in its maps. -/
theorem mem_assets_of_decodePiece (distinct : c.bindings.catalog.FieldsDistinct)
    {e : ArchiveEntry} (sorted : ∀ v, e.content = .json v → v.Sorted) {p : Piece}
    (h : c.decodePiece e = .ok p) (conv : ReferenceConvention) (name : String) :
    name ∈ e.assets conv ↔ name ∈ p.assets conv ∨ name ∈ p.mapAssets conv := by
  rw [ArchiveEntry.assets]
  cases reads_of_decodePiece h with
  | document read | metadata read | page read =>
    exact mem_assets_of_record distinct (sorted _ rfl) read conv name
  | user read =>
    rw [decodeUser] at read
    split at read
    · cases read
      exact (or_iff_left List.not_mem_nil).symm
    · next typeName _ =>
      have read := Outcome.mapError_eq_ok.mp read
      exact (Catalog.decode_eq_ok_iff.mp read).mem_jsonAssets distinct (sorted _ rfl) conv name
  | workspace => exact (or_iff_left List.not_mem_nil).symm
  | asset => simp [Piece.assets, Piece.mapAssets]

/-- No reference is lost on the way from the files of an archive to its contents, but the check of
references does not look at maps. -/
theorem mem_assetRefs_of_open (distinct : c.bindings.catalog.FieldsDistinct)
    {files : List StoredFile} (paths : (filePaths files).Nodup) {g : Contents}
    (opened : c.open files = .ok g) :
    ∃ entries, readEntries files = .ok entries ∧ ∀ path,
      (∃ e ∈ entries, path ∈ e.assets c.options.references) ↔
        path ∈ g.assetRefs ∨ path ∈ g.mapRefs := by
  obtain ⟨entries, read, decoded⟩ := Outcome.bind_eq_ok.mp opened
  obtain ⟨names, from'⟩ := readEntries_readFrom read
  obtain ⟨d, drafted, assembled, -⟩ := decodeEntries_eq_ok.mp decoded
  obtain ⟨rfl, references⟩ := assemble_eq_ok.mp assembled
  obtain ⟨ps, each, -, -, perm⟩ := foldlM_readEntry_pieces (names ▸ paths) drafted
  refine ⟨entries, read, fun path => ?_⟩
  have one (e p) (mem : (e, p) ∈ entries.zip ps) :
      path ∈ e.assets c.options.references ↔
        path ∈ p.assets g.references ∨ path ∈ p.mapAssets g.references := by
    obtain ⟨f, -, stored⟩ := from' e (List.of_mem_zip mem).1
    rw [references]
    exact mem_assets_of_decodePiece distinct (fun v => stored.sorted)
      (List.forall₂_zip each mem) _ path
  simp only [Contents.mem_assetRefs, Contents.mem_mapRefs, perm.mem_iff]
  constructor
  · rintro ⟨e, mem, found⟩
    obtain ⟨p, both⟩ := Outcome.exists_mem_zip each.length_eq mem
    have piece := (List.of_mem_zip both).2
    exact ((one e p both).mp found).imp (⟨p, piece, ·⟩) (⟨p, piece, ·⟩)
  · rintro (⟨p, piece, found⟩ | ⟨p, piece, found⟩)
    · obtain ⟨e, both⟩ := Outcome.exists_mem_zip_right each.length_eq piece
      exact ⟨e, (List.of_mem_zip both).1, (one e p both).mpr (Or.inl found)⟩
    · obtain ⟨e, both⟩ := Outcome.exists_mem_zip_right each.length_eq piece
      exact ⟨e, (List.of_mem_zip both).1, (one e p both).mpr (Or.inr found)⟩

/-- Data of a compiled catalog has the references to assets that the JSON has that it was read
from, and so have the contents of an archive, but for those among maps. -/
theorem assetRefs_of_compile {b : Bundle} {schema : Graph} (load : Graph.load b = .ok schema)
    (compile : schema.compile = .ok c.bindings.catalog) :
    (∀ name v d, v.Sorted → c.bindings.catalog.decode name v = .ok d →
      ∀ (conv : ReferenceConvention) path,
        path ∈ conv.jsonAssets v ↔ path ∈ conv.dataAssets d ∨ path ∈ conv.mapAssets d) ∧
    ∀ files g, (filePaths files).Nodup → c.open files = .ok g →
      (∃ entries, readEntries files = .ok entries ∧ ∀ path,
        (∃ e ∈ entries, path ∈ e.assets c.options.references) ↔
          path ∈ g.assetRefs ∨ path ∈ g.mapRefs) ∧
      (g.validateAssets = .ok () ↔
        ∀ path ∈ g.assetRefs, (resolveAsset? g.assets path).isSome = true) := by
  have distinct := Graph.fieldsDistinct_of_compile load compile
  refine ⟨fun name v d sorted decoded => ?_, fun files g paths opened => ⟨?_, ?_⟩⟩
  · exact (Catalog.decode_eq_ok_iff.mp decoded).mem_jsonAssets distinct sorted
  · exact mem_assetRefs_of_open distinct paths opened
  · exact g.validateAssets_eq_ok

set_option maxRecDepth 100000 in
theorem assetRefs_of_open_map :
    let object : Json := .object [("type", .string "object")]
    let document : Json := .object [("properties", .object [("a", .object []), ("m", object)])]
    let definitions : Json := .object [("document", document), ("meta", object), ("page", object)]
    let b : Bundle := ⟨[("a.json", (Json.object [("definitions", definitions)]).render)]⟩
    let ref (path : String) : Json :=
      .object [("_class", .string "MSJSONFileReference"), ("_ref", .string path)]
    let json (path : String) (v : Json) : StoredFile := ⟨path, .ok v.render.toUTF8.toList⟩
    let files : List StoredFile := [⟨"images/a.png", .ok [137, 80]⟩, json "meta.json" (.object []),
      json "document.json" (.object [("a", ref "images/a"), ("m", ref "images/m")])]
    ∃ schema catalog g entries, Graph.load b = .ok schema ∧ schema.compile = .ok catalog ∧
      Codec.open { bindings := .ofCatalog catalog } files = .ok g ∧
      readEntries files = .ok entries ∧ g.assetRefs = ["images/a"] ∧
      ∀ path, (∃ e ∈ entries, path ∈ e.assets {}) ↔ path = "images/a" ∨ path = "images/m" := by
  intro object document definitions b ref json files
  have runs : Bundle.compilesTo b (fun _ catalog =>
      match Codec.open { bindings := .ofCatalog catalog } files with
      | .ok g => decide (g.assetRefs = ["images/a"] ∧ g.mapRefs = ["images/m"])
      | .error _ => false) = true := by
    rw [Bundle.compilesTo_eq]
    simp only [files, json, Text.toList_eq]
    decide +kernel
  obtain ⟨schema, catalog, load, compile, run⟩ := Bundle.exists_of_compilesTo runs
  split at run
  · next g opened =>
    obtain ⟨checked, unchecked⟩ := of_decide_eq_true run
    obtain ⟨-, found⟩ := assetRefs_of_compile (c := { bindings := .ofCatalog catalog }) load compile
    obtain ⟨entries, read, same⟩ := (found files g (by decide +kernel) opened).1
    refine ⟨schema, catalog, g, entries, load, compile, opened, read, checked, fun path => ?_⟩
    rw [same path, checked, unchecked, List.mem_singleton, List.mem_singleton]
  · cases run

/-- A reference that is read as a map is not found. -/
theorem dataAssets_of_map :
    let object : Json := .object [("type", .string "object")]
    let holder : Json := .object [("properties", .object [("m", object)])]
    let b : Bundle :=
      ⟨[("a.json", (Json.object [("definitions", .object [("holder", holder)])]).render)]⟩
    let v : Json := .object [("m", .object
      [("_class", .string "MSJSONFileReference"), ("_ref", .string "images/m")])]
    let conv : ReferenceConvention := {}
    ∃ schema catalog d, Graph.load b = .ok schema ∧ schema.compile = .ok catalog ∧ v.Sorted ∧
      catalog.decode "Holder" v = .ok d ∧ conv.jsonAssets v = ["images/m"] ∧
      conv.dataAssets d = [] := by
  intro object holder b v conv
  have runs : Bundle.compilesTo b (fun _ catalog =>
      match catalog.decode "Holder" v with
      | .ok d => decide (conv.dataAssets d = [])
      | .error _ => false) = true := by
    rw [Bundle.compilesTo_eq]
    decide +kernel
  obtain ⟨schema, catalog, load, compile, run⟩ := Bundle.exists_of_compilesTo runs
  split at run
  · next d decoded =>
    exact ⟨schema, catalog, d, load, compile, by decide +kernel, decoded, by decide +kernel,
      of_decide_eq_true run⟩
  · cases run

end Codec

end Archive

end TypedArchive
