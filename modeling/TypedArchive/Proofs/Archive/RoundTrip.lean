import TypedArchive.Proofs.Archive.Piece
import TypedArchive.Proofs.Compile.Fields
import TypedArchive.Proofs.Schema.Bytes

/-! Opening and saving are inverse to each other, entry by entry. -/

namespace TypedArchive.Archive

open Zip (StoredFile)

namespace Codec

variable {c : Codec}

/-- Reads the piece in an entry. -/
def decodePiece (c : Codec) (e : ArchiveEntry) : Except ArchiveError Piece :=
  match e.content with
  | .binary bytes => .ok (.asset e.path bytes)
  | .json v =>
    match e.kind with
    | .document => .document <$> c.decodeRecord e.path v c.options.documentType
    | .metadata => .metadata <$> c.decodeRecord e.path v c.options.metadataType
    | .user => .user <$> c.decodeUser e.path v
    | .page => .page (entryStem e.path) <$> c.decodeRecord e.path v c.options.pageType
    | .workspace => .ok (.workspace (entryStem e.path) v)
    | k => .error (.invalidDocument e.path (.unexpectedJson k))

/-- Writes a piece as an entry. -/
def encodePiece (c : Codec) : Piece → Except ArchiveError ArchiveEntry
  | .document r => c.encodeRecord documentPath c.options.documentType r
  | .metadata r => c.encodeRecord metaPath c.options.metadataType r
  | .user d => c.encodeUser d
  | .page id r => c.encodeRecord (pagePath id) c.options.pageType r
  | .workspace name v => .ok ⟨workspacePath name, .json v⟩
  | .asset path bytes => .ok ⟨path, .binary bytes⟩

theorem readEntry_eq (d : Draft) (e : ArchiveEntry) :
    c.readEntry d e = d.put <$> c.decodePiece e := by
  rw [readEntry, decodePiece]
  cases e.content with
  | binary bytes => rfl
  | json v =>
    dsimp only
    cases e.kind with
    | document =>
      dsimp only
      cases c.decodeRecord e.path v c.options.documentType <;> rfl
    | metadata =>
      dsimp only
      cases c.decodeRecord e.path v c.options.metadataType <;> rfl
    | user =>
      dsimp only
      cases c.decodeUser e.path v <;> rfl
    | page =>
      dsimp only
      cases c.decodeRecord e.path v c.options.pageType <;> rfl
    | workspace | preview | image | other => rfl

/-- Entries are read one by one, and their pieces put together. -/
theorem foldlM_readEntry {entries : List ArchiveEntry} {d d' : Draft} :
    entries.foldlM c.readEntry d = .ok d' ↔
      ∃ ps, List.Forall₂ (fun e p => c.decodePiece e = .ok p) entries ps ∧
        ps.foldl Draft.put d = d' := by
  induction entries generalizing d with
  | nil =>
    rw [List.foldlM_nil, Outcome.pure_eq_ok]
    constructor
    · exact fun eq => ⟨[], .nil, eq⟩
    · rintro ⟨ps, each, eq⟩
      cases each
      exact eq
  | cons e entries ih =>
    simp only [List.foldlM_cons, readEntry_eq, Outcome.bind_eq_ok, Outcome.map_eq_ok, ih]
    constructor
    · rintro ⟨_, ⟨p, read, rfl⟩, ps, each, eq⟩
      exact ⟨p :: ps, .cons read each, eq⟩
    · rintro ⟨_, each, eq⟩
      cases each with
      | cons read each => exact ⟨_, ⟨_, read, rfl⟩, _, each, eq⟩

/-- The pieces that entries are read as: JSON has its own path for each kind, and bytes are an asset
under any path. -/
inductive Reads (c : Codec) : ArchiveEntry → Piece → Prop
  | document {v : Json} {r : Record}
      (read : c.decodeRecord documentPath v c.options.documentType = .ok r) :
      Reads c ⟨documentPath, .json v⟩ (.document r)
  | metadata {v : Json} {r : Record}
      (read : c.decodeRecord metaPath v c.options.metadataType = .ok r) :
      Reads c ⟨metaPath, .json v⟩ (.metadata r)
  | user {v : Json} {d : Data} (read : c.decodeUser userPath v = .ok d) :
      Reads c ⟨userPath, .json v⟩ (.user d)
  | page {id : String} {v : Json} {r : Record}
      (read : c.decodeRecord (pagePath id) v c.options.pageType = .ok r) :
      Reads c ⟨pagePath id, .json v⟩ (.page id r)
  | workspace {name : String} {v : Json} :
      Reads c ⟨workspacePath name, .json v⟩ (.workspace name v)
  | asset {path : String} {bytes : List UInt8} : Reads c ⟨path, .binary bytes⟩ (.asset path bytes)

theorem reads_of_decodePiece {e : ArchiveEntry} {p : Piece} (h : c.decodePiece e = .ok p) :
    c.Reads e p := by
  obtain ⟨path, content⟩ := e
  have fits := EntryKind.classify_fits path
  cases content with
  | binary bytes =>
    cases h
    exact .asset
  | json v =>
    simp only [decodePiece, ArchiveEntry.kind] at h
    cases kind : EntryKind.classify path with
    | document =>
      simp only [kind, EntryKind.Fits] at fits h
      obtain ⟨r, read, rfl⟩ := Outcome.map_eq_ok.mp h
      subst fits
      exact .document read
    | metadata =>
      simp only [kind, EntryKind.Fits] at fits h
      obtain ⟨r, read, rfl⟩ := Outcome.map_eq_ok.mp h
      subst fits
      exact .metadata read
    | user =>
      simp only [kind, EntryKind.Fits] at fits h
      obtain ⟨d, read, rfl⟩ := Outcome.map_eq_ok.mp h
      subst fits
      exact .user read
    | page =>
      simp only [kind, EntryKind.Fits] at fits h
      obtain ⟨r, read, rfl⟩ := Outcome.map_eq_ok.mp h
      generalize entryStem path = id at fits
      subst fits
      exact .page read
    | workspace =>
      simp only [kind, EntryKind.Fits] at fits h
      cases h
      generalize entryStem path = name at fits
      subst fits
      exact .workspace
    | preview | image | other =>
      rw [kind] at h
      cases h

theorem Reads.path {e : ArchiveEntry} {p : Piece} (h : c.Reads e p) : p.path = e.path := by
  cases h <;> rfl

/-- Entries of different paths are read as pieces that are all kept. -/
theorem foldlM_readEntry_pieces {entries : List ArchiveEntry} {d : Draft}
    (paths : (entries.map ArchiveEntry.path).Nodup)
    (read : entries.foldlM c.readEntry {} = .ok d) :
    ∃ ps, List.Forall₂ (fun e p => c.decodePiece e = .ok p) entries ps ∧
      (ps.map Piece.path).Nodup ∧ ps.foldl Draft.put {} = d ∧ d.pieces.Perm ps := by
  obtain ⟨ps, each, rfl⟩ := foldlM_readEntry.mp read
  have names : entries.map ArchiveEntry.path = ps.map Piece.path :=
    Outcome.map_eq_map_iff.mpr ⟨each.length_eq, fun p mem =>
      (reads_of_decodePiece (List.forall₂_zip each mem)).path.symm⟩
  rw [names] at paths
  have empty : ps ++ Draft.pieces {} = ps := List.append_nil ps
  have kept := Draft.pieces_foldl_put (empty ▸ paths)
  rw [empty] at kept
  exact ⟨ps, each, paths, rfl, kept⟩

theorem decodeRecord_ok {path expected : String} {v : Json} {r : Record}
    (h : c.decodeRecord path v expected = .ok r) : c.bindings.decode expected v = .ok r.toData := by
  rw [decodeRecord] at h
  split at h
  · cases h
  · next typeName d tagged =>
    obtain ⟨routed, -, h'⟩ := Outcome.bind_eq_ok.mp tagged
    obtain ⟨d', read, eq⟩ := Outcome.bind_eq_ok.mp h'
    cases eq
    split at h
    · cases h
    · next same =>
      rw [← Decidable.not_not.mp same, read]
      split at h
      · cases h
        rfl
      · cases h

section Inverse

variable (distinct : c.bindings.catalog.FieldsDistinct)

include distinct

theorem encode_decode_binding {name : String} {v : Json} (sorted : v.Sorted) {d : Data}
    (h : c.bindings.decode name v = .ok d) : c.bindings.encode name d = .ok v :=
  ((Catalog.decode_eq_ok_iff.mp h).inverse distinct sorted).2 []

theorem encodeRecord_decodeRecord {path expected : String} {v : Json} (sorted : v.Sorted)
    {r : Record} (h : c.decodeRecord path v expected = .ok r) :
    c.encodeRecord path expected r = .ok ⟨path, .json v⟩ := by
  rw [encodeRecord, encode_decode_binding distinct sorted (decodeRecord_ok h)]
  rfl

theorem encodeUser_decodeUser {v : Json} (sorted : v.Sorted) {d : Data}
    (h : c.decodeUser userPath v = .ok d) : c.encodeUser d = .ok ⟨userPath, .json v⟩ := by
  rw [decodeUser] at h
  rw [encodeUser]
  split at h
  · cases h
    rfl
  · next typeName _ =>
    cases read : c.bindings.decode typeName v with
    | error e =>
      rw [read] at h
      cases h
    | ok d' =>
      rw [read] at h
      cases h
      rw [encode_decode_binding distinct sorted read]
      rfl

/-- A piece that was read is written as the entry that it was read from. -/
theorem encodePiece_decodePiece {e : ArchiveEntry} (stored : e.Stored) {p : Piece}
    (h : c.decodePiece e = .ok p) : c.encodePiece p = .ok e := by
  have sorted (v) (json : e.content = .json v) : v.Sorted := (stored.json v json).2.1
  cases reads_of_decodePiece h with
  | document read | metadata read | page read =>
    exact encodeRecord_decodeRecord distinct (sorted _ rfl) read
  | user read => exact encodeUser_decodeUser distinct (sorted _ rfl) read
  | workspace | asset => rfl

end Inverse

theorem encodePages_eq (pages : List (String × Record)) :
    c.encodePages pages = (pages.map fun p => Piece.page p.1 p.2).mapM c.encodePiece := by
  induction pages with
  | nil => rfl
  | cons p pages ih =>
    rw [encodePages, ih, List.map_cons, List.mapM_cons]
    rfl

theorem mapM_encodePiece {α : Type} (xs : List α) (f : α → Piece) (entry : α → ArchiveEntry)
    (each : ∀ x, c.encodePiece (f x) = .ok (entry x)) :
    (xs.map f).mapM c.encodePiece = pure (xs.map entry) := by
  refine Outcome.mapM_eq_ok.mpr ?_
  rw [List.forall₂_map_left_iff, List.forall₂_map_right_iff]
  exact List.forall₂_same.mpr fun x _ => each x

/-- Contents are written piece by piece. -/
theorem encodeEntries_eq {d : Draft} {g : Contents} (h : c.assemble d = .ok g) :
    c.encodeEntries g = d.pieces.mapM c.encodePiece := by
  obtain ⟨document, metadata, user, pages, workspace, assets⟩ := d
  have workspace_ok := mapM_encodePiece (c := c) workspace
    (fun p => Piece.workspace p.1 p.2) (fun p => ⟨workspacePath p.1, .json p.2⟩) fun _ => rfl
  have assets_ok := mapM_encodePiece (c := c) assets
    (fun p => Piece.asset p.1 p.2) (fun p => ⟨p.1, .binary p.2⟩) fun _ => rfl
  cases document with
  | none => cases h
  | some document =>
    cases metadata with
    | none => cases h
    | some metadata =>
      cases h
      simp only [encodeEntries, Draft.pieces, List.mapM_append, workspace_ok, assets_ok,
        ← encodePages_eq, Option.toList_some, List.map_cons, List.map_nil, List.mapM_cons,
        encodePiece, bind_assoc, pure_bind, List.singleton_append]
      refine bind_congr fun first => bind_congr fun second => ?_
      cases user with
      | none =>
        simp only [Option.toList_none, List.map_nil, List.mapM_nil, pure_bind]
        change c.encodePages pages >>= _ = _
        refine bind_congr fun pages => ?_
        simp only [List.append_assoc, List.cons_append, List.nil_append]
      | some data =>
        simp only [Option.toList_some, List.map_cons, List.map_nil, List.mapM_cons, List.mapM_nil,
          encodePiece, bind_assoc, pure_bind]
        refine bind_congr fun third => bind_congr fun pages => ?_
        simp only [List.append_assoc, List.cons_append, List.nil_append]

theorem validateAssetPaths_eq_ok {g : Contents} : g.validateAssetPaths = .ok () ↔
    ∀ path ∈ g.assets.keys, (EntryKind.classify path).isJson = false := by
  have binary : g.assets.keys.find? (fun path => (EntryKind.classify path).isJson) = none ↔
      ∀ path ∈ g.assets.keys, (EntryKind.classify path).isJson = false := by
    simp [List.find?_eq_none]
  rw [Contents.validateAssetPaths, ← binary]
  split
  · next found => simp [found]
  · next none => simp [none]

theorem decodeEntries_eq_ok {entries : List ArchiveEntry} {g : Contents} :
    c.decodeEntries entries = .ok g ↔ ∃ d, entries.foldlM c.readEntry {} = .ok d ∧
      c.assemble d = .ok g ∧ g.validatePages = .ok () ∧
        (c.options.assetCheck = .eager → g.validateAssets = .ok ()) := by
  simp only [decodeEntries, Outcome.bind_eq_ok]
  constructor
  · rintro ⟨d, read, g', assembled, ⟨⟩, pages, h⟩
    split at h
    · next eager =>
      obtain ⟨⟨⟩, assets, h⟩ := Outcome.bind_eq_ok.mp h
      cases h
      exact ⟨d, read, assembled, pages, fun _ => assets⟩
    · next lazy =>
      cases h
      exact ⟨d, read, assembled, pages, fun eager => absurd eager lazy⟩
  · rintro ⟨d, read, assembled, pages, assets⟩
    refine ⟨d, read, g, assembled, (), pages, ?_⟩
    split
    · next eager => exact Outcome.bind_eq_ok.mpr ⟨(), assets eager, rfl⟩
    · rfl

/-- What decoding entries of different paths finds is written as the same entries, up to order, and
is found in those again. -/
theorem decodeEntries_inverse (distinct : c.bindings.catalog.FieldsDistinct)
    {entries : List ArchiveEntry} (paths : (entries.map ArchiveEntry.path).Nodup)
    (stored : ∀ e ∈ entries, e.Stored) {g : Contents} (h : c.decodeEntries entries = .ok g) :
    g.validateAssetPaths = .ok () ∧ ∃ entries', c.encodeEntries g = .ok entries' ∧
      entries'.Perm entries ∧ c.decodeEntries entries' = .ok g := by
  obtain ⟨d, read, assembled, checks⟩ := decodeEntries_eq_ok.mp h
  obtain ⟨ps, each, paths, rfl, perm⟩ := foldlM_readEntry_pieces paths read
  -- Reading and writing each single entry are inverse.
  have inverse : List.Forall₂ (fun e p => c.decodePiece e = .ok p ∧ c.encodePiece p = .ok e)
      entries ps :=
    ((List.forall₂_and_left _ _).mpr ⟨stored, each⟩).imp fun e p h =>
      ⟨h.2, encodePiece_decodePiece distinct h.1 h.2⟩
  obtain ⟨entries', written, same⟩ := List.perm_comp_forall₂ perm inverse.flip
  refine ⟨validateAssetPaths_eq_ok.mpr fun path mem => ?_, entries', ?_, same, ?_⟩
  · rw [(assemble_eq_ok.mp assembled).1] at perm
    obtain ⟨⟨_, bytes⟩, pair, rfl⟩ := List.mem_map.mp mem
    have piece : Piece.asset _ bytes ∈ ps :=
      perm.subset (by simpa [Draft.pieces, Contents.draft] using pair)
    obtain ⟨e, both⟩ := Outcome.exists_mem_zip_right inverse.length_eq piece
    have encoded := (List.forall₂_zip inverse both).2
    cases encoded
    exact (stored _ (List.of_mem_zip both).1).binary _ rfl
  · rw [encodeEntries_eq assembled, Outcome.mapM_eq_ok]
    exact written.imp fun p e h => h.2
  · have reread : List.Forall₂ (fun e p => c.decodePiece e = .ok p) entries' _ :=
      (written.imp fun p e h => h.1).flip
    have rebuilt := Draft.foldl_put_perm perm ((perm.map Piece.path).nodup_iff.mpr paths) {}
    exact decodeEntries_eq_ok.mpr
      ⟨_, foldlM_readEntry.mpr ⟨_, reread, rebuilt⟩, assembled, checks⟩

/-- What the files that contents are saved as have in common with those that they were opened
from. -/
structure Saves (c : Codec) (files : List StoredFile) (g : Contents) (saved : List StoredFile) :
    Prop where
  written : c.save g = .ok saved
  /-- The same content at the same paths. -/
  same : ∃ entries entries', readEntries files = .ok entries ∧
    readEntries saved = .ok entries' ∧ entries'.Perm entries
  distinct : (saved.map StoredFile.path).Nodup
  plain : ∀ f ∈ saved, isDirectory f.path = false
  reopened : c.open saved = .ok g
  resaved : (c.open saved >>= c.save) = .ok saved

/-- An archive that opens is saved with the same entries, and what is saved opens as the same
contents. -/
theorem save_open {b : Bundle} {schema : Graph} (load : Graph.load b = .ok schema)
    (compile : schema.compile = .ok c.bindings.catalog) (eager : c.options.assetCheck = .eager)
    {files : List StoredFile} (paths : (filePaths files).Nodup)
    (reprint : ∀ f ∈ files, FileReprints f) {g : Contents} (opened : c.open files = .ok g) :
    ∃ saved, c.Saves files g saved := by
  obtain ⟨entries, read, decoded⟩ := Outcome.bind_eq_ok.mp opened
  obtain ⟨names, stored⟩ := readEntries_ok read reprint
  rw [← names] at paths
  obtain ⟨assetPaths, entries', encoded, perm, again⟩ :=
    decodeEntries_inverse (Graph.fieldsDistinct_of_compile load compile) paths stored decoded
  obtain ⟨-, -, -, pages, assets⟩ := decodeEntries_eq_ok.mp decoded
  have stored (e) (mem : e ∈ entries') : e.Stored := stored e (perm.subset mem)
  have paths : (entries'.map ArchiveEntry.path).Nodup := (perm.map _).nodup_iff.mpr paths
  have written : c.save g = .ok (entries'.map ArchiveEntry.toFile) := by
    rw [save, Contents.validate, assetPaths, pages, assets eager, encoded]
    exact writeFrom_ok paths fun _ _ => List.not_mem_nil
  have reread := readEntries_toFile stored
  have reopened : c.open (entries'.map ArchiveEntry.toFile) = .ok g := by
    rw [Codec.open, reread]
    exact again
  refine ⟨_, written, ⟨entries, entries', read, reread, perm⟩, ?_, ?_, reopened, ?_⟩
  · rwa [List.map_map]
  · exact List.forall_mem_map.mpr fun e mem => (stored e mem).file
  · rw [reopened]
    exact written

set_option maxRecDepth 100000 in
theorem save_open_pages :
    let object : Json := .object [("type", .string "object")]
    let ref : Json := .object [("properties", .object [("_ref", .object [])])]
    let document : Json := .object [("properties", .object [("pages", .object [("items", ref)])])]
    let definitions : Json := .object [("document", document), ("meta", object), ("page", object)]
    let b : Bundle := ⟨[("a.json", (Json.object [("definitions", definitions)]).render)]⟩
    let json (path : String) (v : Json) : StoredFile := ⟨path, .ok v.render.toUTF8.toList⟩
    let page : Json := .object [("_class", .string "MSJSONFileReference"),
      ("_ref", .string "pages/p"), ("_ref_class", .string "MSImmutablePage")]
    let files : List StoredFile :=
      [⟨"images/a.png", .ok [137, 80]⟩, ⟨"pages/", .ok []⟩, json "pages/p.json" (.object []),
        json "workspace/w.json" (.array [.null]), json "meta.json" (.object []),
        json "document.json" (.object [("pages", .array [page])])]
    ∃ schema catalog g saved, Graph.load b = .ok schema ∧ schema.compile = .ok catalog ∧
      Codec.open { bindings := .ofCatalog catalog } files = .ok g ∧
      Codec.Saves { bindings := .ofCatalog catalog } files g saved := by
  intro object ref document definitions b json page files
  have runs : ((do
      let schema ← (Graph.load b).mapError fun _ => ()
      let catalog ← schema.compile.mapError fun _ => ()
      (Codec.open { bindings := .ofCatalog catalog } files).mapError fun _ => () :
        Except Unit Contents)).isOk = true := by
    rw [Graph.load_eq_loadBytes]
    simp only [files, json, Text.toList_eq]
    decide +kernel
  obtain ⟨g, run⟩ := Outcome.exists_of_isOk runs
  obtain ⟨schema, load, run⟩ := Outcome.bind_eq_ok.mp run
  obtain ⟨catalog, compile, opened⟩ := Outcome.bind_eq_ok.mp run
  rw [Outcome.mapError_eq_ok] at load compile opened
  have paths : (filePaths files).Nodup := by decide +kernel
  have reprint : ∀ f ∈ files, FileReprints f := by decide +kernel
  obtain ⟨saved, saves⟩ := save_open load compile rfl paths reprint opened
  exact ⟨schema, catalog, g, saved, load, compile, opened, saves⟩

end Codec

end TypedArchive.Archive
