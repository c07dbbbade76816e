import TypedArchive.Proofs.Archive.RoundTrip

/-! The order of the files in an archive carries no meaning: files of different paths are read as
the same contents in whatever order they lie. -/

namespace TypedArchive.Archive

open Zip (StoredFile)

/-- Files are read one by one, and each may hold an entry. -/
theorem readEntries_eq_ok {files : List StoredFile} {entries : List ArchiveEntry} :
    readEntries files = .ok entries ↔
      ∃ found, List.Forall₂ (fun f e => ArchiveEntry.ofFile? f = .ok e) files found ∧
        found.flatMap Option.toList = entries := by
  induction files generalizing entries with
  | nil =>
    rw [readEntries, Except.ok.injEq]
    constructor
    · intro eq
      exact ⟨[], .nil, eq⟩
    · rintro ⟨found, each, eq⟩
      cases each
      exact eq
  | cons f files ih =>
    simp only [readEntries, Outcome.bind_eq_ok, Outcome.pure_eq_ok, ih]
    constructor
    · rintro ⟨e, read, _, ⟨found, each, rfl⟩, rfl⟩
      exact ⟨e :: found, .cons read each, List.flatMap_cons⟩
    · rintro ⟨_, each, rfl⟩
      cases each with
      | cons read each => exact ⟨_, read, _, ⟨_, each, rfl⟩, List.flatMap_cons.symm⟩

/-- Files that lie in another order hold their entries in another order. -/
theorem readEntries_perm {files files' : List StoredFile} (perm : files.Perm files')
    {entries : List ArchiveEntry} (read : readEntries files = .ok entries) :
    ∃ entries', readEntries files' = .ok entries' ∧ entries.Perm entries' := by
  obtain ⟨found, each, rfl⟩ := readEntries_eq_ok.mp read
  obtain ⟨found', each', same⟩ := List.perm_comp_forall₂ perm.symm each
  exact ⟨_, readEntries_eq_ok.mpr ⟨found', each', rfl⟩, (same.flatMap_right _).symm⟩

namespace Codec

variable {c : Codec}

/-- What is decoded from entries of different paths does not depend on their order. Checks are made
when all entries have been read, so a document may stand after the pages that it lists. -/
theorem decodeEntries_perm {entries entries' : List ArchiveEntry} (perm : entries.Perm entries')
    (paths : (entries.map ArchiveEntry.path).Nodup) {g : Contents}
    (decoded : c.decodeEntries entries = .ok g) : c.decodeEntries entries' = .ok g := by
  obtain ⟨d, read, checks⟩ := decodeEntries_eq_ok.mp decoded
  obtain ⟨ps, each, distinct, rfl, -⟩ := foldlM_readEntry_pieces paths read
  obtain ⟨ps', each', same⟩ := List.perm_comp_forall₂ perm.symm each
  have put : ps'.foldl Draft.put {} = ps.foldl Draft.put {} :=
    (Draft.foldl_put_perm same.symm distinct {}).symm
  exact decodeEntries_eq_ok.mpr ⟨_, foldlM_readEntry.mpr ⟨ps', each', put⟩, checks⟩

theorem open_of_perm {files files' : List StoredFile} (perm : files.Perm files')
    (paths : (filePaths files).Nodup) {g : Contents} (opened : c.open files = .ok g) :
    c.open files' = .ok g := by
  obtain ⟨entries, read, decoded⟩ := Outcome.bind_eq_ok.mp opened
  obtain ⟨entries', read', same⟩ := readEntries_perm perm read
  rw [← (readEntries_readFrom read).1] at paths
  exact Outcome.bind_eq_ok.mpr ⟨entries', read', decodeEntries_perm same paths decoded⟩

/-- Files of different paths open as the same contents in every order, or in no order. -/
theorem open_perm (c : Codec) {files files' : List StoredFile} (perm : files.Perm files')
    (paths : (filePaths files).Nodup) (g : Contents) :
    c.open files = .ok g ↔ c.open files' = .ok g := by
  have names : (filePaths files).Perm (filePaths files') := (perm.map StoredFile.path).filter _
  constructor
  · intro opened
    exact open_of_perm perm paths opened
  · intro opened
    exact open_of_perm perm.symm (names.nodup_iff.mp paths) opened

set_option maxRecDepth 100000 in
theorem open_perm_pages :
    let object : Json := .object [("type", .string "object")]
    let ref : Json := .object [("properties", .object [("_ref", .object [])])]
    let document : Json := .object [("properties", .object [("pages", .object [("items", ref)])])]
    let definitions : Json := .object [("document", document), ("meta", object), ("page", object)]
    let b : Bundle := ⟨[("a.json", (Json.object [("definitions", definitions)]).render)]⟩
    let json (path : String) (v : Json) : StoredFile := ⟨path, .ok v.render.toUTF8.toList⟩
    let page : Json := .object [("_class", .string "MSJSONFileReference"),
      ("_ref", .string "pages/p"), ("_ref_class", .string "MSImmutablePage")]
    let files : List StoredFile :=
      [json "document.json" (.object [("pages", .array [page])]), json "meta.json" (.object []),
        json "pages/p.json" (.object []), json "pages/q.json" (.object []),
        ⟨"images/a.png", .ok [137, 80]⟩]
    ∃ schema catalog g, Graph.load b = .ok schema ∧ schema.compile = .ok catalog ∧
      Codec.open { bindings := .ofCatalog catalog } files = .ok g ∧
      Codec.open { bindings := .ofCatalog catalog } files.reverse = .ok g := by
  intro object ref document definitions b json page files
  have runs : ((do
      let schema ← (Graph.load b).mapError fun _ => ()
      let catalog ← schema.compile.mapError fun _ => ()
      (Codec.open { bindings := .ofCatalog catalog } files).mapError fun _ => () :
        Except Unit Contents)).isOk = true := by
    rw [Graph.load_eq_loadBytes]
    simp only [files, json, Text.toList_eq]
    decide +kernel
  obtain ⟨g, run⟩ := Outcome.exists_of_isOk runs
  obtain ⟨schema, load, run⟩ := Outcome.bind_eq_ok.mp run
  obtain ⟨catalog, compile, opened⟩ := Outcome.bind_eq_ok.mp run
  rw [Outcome.mapError_eq_ok] at load compile opened
  have paths : (filePaths files).Nodup := by decide +kernel
  have reversed := (open_perm _ (List.reverse_perm files).symm paths g).mp opened
  exact ⟨schema, catalog, g, load, compile, opened, reversed⟩

end Codec

end TypedArchive.Archive
