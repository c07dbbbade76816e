import TypedArchive.Proofs.Archive.Layout
import TypedArchive.Proofs.Archive.RoundTrip

/-! What is found of contents in the files that they are saved as. Names are made into paths when
they are written, and taken from the paths when they are read: one that is empty or holds a slash
does not come back, and neither does an asset whose path stands for a directory. -/

namespace TypedArchive.Archive

open Zip (StoredFile)

theorem writeFrom_eq_ok {taken : List String} {entries : List ArchiveEntry}
    {files : List StoredFile} (h : writeFrom taken entries = .ok files) :
    ((entries.map ArchiveEntry.path).Nodup ∧ ∀ e ∈ entries, e.path ∉ taken) ∧
      files = entries.map ArchiveEntry.toFile := by
  induction entries generalizing taken files with
  | nil =>
    cases h
    exact ⟨⟨List.nodup_nil, nofun⟩, rfl⟩
  | cons e entries ih =>
    rw [writeFrom] at h
    split at h
    · cases h
    · next free =>
      obtain ⟨rest, written, h⟩ := Outcome.bind_eq_ok.mp h
      cases h
      obtain ⟨⟨distinct, others⟩, rfl⟩ := ih written
      have fresh : e.path ∉ entries.map ArchiveEntry.path := by
        intro mem
        obtain ⟨e', mem', eq⟩ := List.mem_map.mp mem
        exact others e' mem' (eq ▸ List.mem_cons_self)
      refine ⟨⟨List.nodup_cons.mpr ⟨fresh, distinct⟩, ?_⟩, rfl⟩
      exact List.forall_mem_cons.mpr
        ⟨free, fun e' mem taken' => others e' mem (List.mem_cons_of_mem _ taken')⟩

/-- Each file is read by itself, and what it holds is among the entries. -/
theorem ofFile?_of_readEntries {files : List StoredFile} {entries : List ArchiveEntry}
    (h : readEntries files = .ok entries) {f : StoredFile} (mem : f ∈ files) :
    ∃ found, ArchiveEntry.ofFile? f = .ok found ∧ found.toList ⊆ entries := by
  induction files generalizing entries with
  | nil => cases mem
  | cons first files ih =>
    rw [readEntries] at h
    obtain ⟨e, read, h⟩ := Outcome.bind_eq_ok.mp h
    obtain ⟨rest, others, h⟩ := Outcome.bind_eq_ok.mp h
    cases h
    rcases List.mem_cons.mp mem with rfl | mem
    · exact ⟨e, read, List.subset_append_left _ _⟩
    · obtain ⟨found, read, among⟩ := ih others mem
      exact ⟨found, read, List.subset_append_of_subset_right _ among⟩

namespace ArchiveEntry

/-- The page that an entry is the body of. -/
def pageId? (e : ArchiveEntry) : Option String :=
  match e.content, e.kind with
  | .json _, .page => some (entryStem e.path)
  | _, _ => none

/-- The workspace document in an entry, with its name. -/
def workspace? (e : ArchiveEntry) : Option (String × Json) :=
  match e.content, e.kind with
  | .json v, .workspace => some (entryStem e.path, v)
  | _, _ => none

def asset? (e : ArchiveEntry) : Option (String × List UInt8) :=
  match e.content with
  | .json _ => none
  | .binary bytes => some (e.path, bytes)

theorem pageId?_eq_some {e : ArchiveEntry} {id : String} (h : e.pageId? = some id) :
    FlatName id := by
  rw [pageId?] at h
  split at h
  · next kind =>
    cases h
    exact flatName_of_classify (Or.inl kind)
  · cases h

theorem workspace?_eq_some {e : ArchiveEntry} {name : String} {v : Json}
    (h : e.workspace? = some (name, v)) : FlatName name ∧ e = ⟨workspacePath name, .json v⟩ := by
  rw [workspace?] at h
  split at h
  · next content kind =>
    cases h
    have fits := EntryKind.classify_fits e.path
    rw [← ArchiveEntry.kind, kind] at fits
    exact ⟨flatName_of_classify (Or.inr kind), congrArg₂ ArchiveEntry.mk fits content⟩
  · cases h

theorem asset?_eq_some {e : ArchiveEntry} {path : String} {bytes : List UInt8}
    (h : e.asset? = some (path, bytes)) : e.path = path := by
  rw [asset?] at h
  split at h <;> cases h
  rfl

/-- The text of JSON in an entry is read again, as the same value or as another. -/
def Legible (e : ArchiveEntry) : Prop :=
  ∀ v, e.content = .json v → ∃ w, Json.parseBytes v.render.toUTF8.toList = .ok w

end ArchiveEntry

namespace Piece

def pageId? : Piece → Option String
  | page id _ => some id
  | _ => none

def workspace? : Piece → Option (String × Json)
  | workspace name v => some (name, v)
  | _ => none

def asset? : Piece → Option (String × List UInt8)
  | asset path bytes => some (path, bytes)
  | _ => none

/-- The kind of entry that a piece is meant to be. -/
def kind : Piece → EntryKind
  | document _ => .document
  | metadata _ => .metadata
  | user _ => .user
  | page .. => .page
  | workspace .. => .workspace
  | asset path _ => .classify path

/-- A piece is told by the path of its entry. -/
def Plain : Piece → Prop
  | page id _ => FlatName id
  | workspace name _ => FlatName name
  | asset path _ => isDirectory path = false ∧ (EntryKind.classify path).isJson = false
  | _ => True

end Piece

namespace Draft

variable (d : Draft)

theorem filterMap_pageId?_pieces : d.pieces.filterMap Piece.pageId? = d.pages.keys := by
  simp [pieces, List.filterMap_map, Function.comp_def, Piece.pageId?, Assoc.keys]

theorem filterMap_workspace?_pieces : d.pieces.filterMap Piece.workspace? = d.workspace := by
  simp [pieces, List.filterMap_map, Function.comp_def, Piece.workspace?]

theorem filterMap_asset?_pieces : d.pieces.filterMap Piece.asset? = d.assets := by
  simp [pieces, List.filterMap_map, Function.comp_def, Piece.asset?]

end Draft

namespace Codec

variable {c : Codec}

/-- All pieces but assets are written as JSON, and workspace documents as they are. -/
theorem encodePiece_json {p : Piece} {e : ArchiveEntry} (h : c.encodePiece p = .ok e) :
    (∃ v, e = ⟨p.path, .json v⟩ ∧ (∀ path bytes, p ≠ .asset path bytes) ∧
      ∀ name w, p = .workspace name w → v = w) ∨
    ∃ path bytes, p = .asset path bytes ∧ e = ⟨path, .binary bytes⟩ := by
  have record {path name : String} {r : Record} (h : c.encodeRecord path name r = .ok e) :
      ∃ v, e = ⟨path, .json v⟩ := by
    obtain ⟨v, -, h⟩ := Outcome.bind_eq_ok.mp h
    cases h
    exact ⟨v, rfl⟩
  cases p with
  | document r | metadata r | page id r =>
    obtain ⟨v, rfl⟩ := record h
    refine Or.inl ⟨v, rfl, fun path bytes eq => ?_, fun name w eq => ?_⟩ <;> cases eq
  | user d =>
    simp only [encodePiece, encodeUser] at h
    split at h
    · cases h
      refine Or.inl ⟨_, rfl, fun path bytes eq => ?_, fun name w eq => ?_⟩ <;> cases eq
    · obtain ⟨v, -, h⟩ := Outcome.bind_eq_ok.mp h
      cases h
      refine Or.inl ⟨v, rfl, fun path bytes eq => ?_, fun name w eq => ?_⟩ <;> cases eq
  | workspace name v =>
    cases h
    refine Or.inl ⟨v, rfl, fun path bytes eq => ?_, fun name' w eq => ?_⟩ <;> cases eq
    rfl
  | asset path bytes =>
    cases h
    exact Or.inr ⟨path, bytes, rfl, rfl⟩

end Codec

/-- What an entry is read as that says the same as a piece. -/
structure ArchiveEntry.Shows (e : ArchiveEntry) (p : Piece) : Prop where
  pageId? : e.pageId? = p.pageId?
  workspace? : e.workspace? = p.workspace?
  asset? : e.asset? = p.asset?

theorem filterMap_of_shows {α : Type} {found : List ArchiveEntry} {ps : List Piece}
    (shows : List.Forall₂ ArchiveEntry.Shows found ps) {f : ArchiveEntry → Option α}
    {f' : Piece → Option α} (agree : ∀ e p, e.Shows p → f e = f' p) :
    found.filterMap f = ps.filterMap f' := by
  induction shows with
  | nil => rfl
  | cons first _ ih => rw [List.filterMap_cons, List.filterMap_cons, agree _ _ first, ih]

theorem Piece.Plain.file {p : Piece} (plain : p.Plain) : isDirectory p.path = false := by
  cases p with
  | document r => exact (by decide : isDirectory documentPath = false)
  | metadata r => exact (by decide : isDirectory metaPath = false)
  | user d => exact (by decide : isDirectory userPath = false)
  | page id r => exact isDirectory_jsonPath pagesDirectory id
  | workspace name v => exact isDirectory_jsonPath workspaceDirectory name
  | asset path bytes => exact plain.1

theorem Piece.Plain.kind {p : Piece} (plain : p.Plain) : EntryKind.classify p.path = p.kind := by
  cases p with
  | document r | metadata r | user d | asset path bytes => rfl
  | page id r => exact (classify_pagePath id).trans (if_pos plain)
  | workspace name v => exact (classify_workspacePath name).trans (if_pos plain)

theorem Piece.Plain.isJson {p : Piece} (plain : p.Plain)
    (other : ∀ path bytes, p ≠ .asset path bytes) : (EntryKind.classify p.path).isJson = true := by
  rw [plain.kind]
  cases p with
  | asset path bytes => exact absurd rfl (other path bytes)
  | _ => rfl

/-- The JSON of a plain piece says the same as the piece, for workspace documents if it is the
same JSON. -/
theorem Piece.Plain.shows {p : Piece} (plain : p.Plain) {w : Json}
    (other : ∀ path bytes, p ≠ .asset path bytes) (same : ∀ name v, p = .workspace name v → w = v) :
    ArchiveEntry.Shows ⟨p.path, .json w⟩ p := by
  have kind := plain.kind
  cases p with
  | document r | metadata r | user d =>
    refine ⟨?_, ?_, rfl⟩ <;>
      simp only [ArchiveEntry.pageId?, ArchiveEntry.workspace?, ArchiveEntry.kind, kind] <;> rfl
  | page id r =>
    have stem : entryStem (page id r).path = id := entryStem_jsonPath _ plain.2
    refine ⟨?_, ?_, rfl⟩ <;>
      simp only [ArchiveEntry.pageId?, ArchiveEntry.workspace?, ArchiveEntry.kind, kind, stem] <;>
      rfl
  | workspace name v =>
    have stem : entryStem (workspace name v).path = name := entryStem_jsonPath _ plain.2
    obtain rfl := same name v rfl
    refine ⟨?_, ?_, rfl⟩ <;>
      simp only [ArchiveEntry.pageId?, ArchiveEntry.workspace?, ArchiveEntry.kind, kind, stem] <;>
      rfl
  | asset path bytes => exact absurd rfl (other path bytes)

namespace ArchiveEntry

theorem ofFile?_json {path : String} (file : isDirectory path = false)
    (isJson : (EntryKind.classify path).isJson = true) (v : Json) :
    ofFile? (toFile ⟨path, .json v⟩) = match Json.parseBytes v.render.toUTF8.toList with
      | .ok w => .ok (some ⟨path, .json w⟩)
      | .error e => .error (.json path e) := by
  simp only [ofFile?, toFile, bytes, file, Bool.false_eq_true, if_false, ofBytes, isJson, if_true]
  cases Json.parseBytes v.render.toUTF8.toList <;> rfl

theorem ofFile?_binary {path : String} (file : isDirectory path = false)
    (isBinary : (EntryKind.classify path).isJson = false) (bytes : List UInt8) :
    ofFile? (toFile ⟨path, .binary bytes⟩) = .ok (some ⟨path, .binary bytes⟩) := by
  simp only [ofFile?, toFile, ArchiveEntry.bytes, file, Bool.false_eq_true, if_false, ofBytes,
    isBinary]
  rfl

end ArchiveEntry

namespace Codec

variable {c : Codec}

/-- A plain piece is found again in the file of its entry. -/
theorem shows_of_encodePiece {p : Piece} (plain : p.Plain)
    (reprints : ∀ name v, p = .workspace name v → v.Reprints) {e : ArchiveEntry}
    (h : c.encodePiece p = .ok e) (legible : e.Legible) :
    ∃ found, ArchiveEntry.ofFile? e.toFile = .ok (some found) ∧ found.Shows p := by
  rcases encodePiece_json h with ⟨v, rfl, other, same⟩ | ⟨path, bytes, rfl, rfl⟩
  · obtain ⟨w, parsed⟩ := legible v rfl
    have kept (name v') (eq : p = .workspace name v') : w = v' := by
      obtain rfl := same name v' eq
      exact Except.ok.inj (parsed.symm.trans (reprints name v eq))
    refine ⟨_, ?_, plain.shows other kept⟩
    rw [ArchiveEntry.ofFile?_json plain.file (plain.isJson other), parsed]
  · exact ⟨_, ArchiveEntry.ofFile?_binary plain.1 plain.2 bytes, ⟨rfl, rfl, rfl⟩⟩

/-- Plain pieces are all found again, in their order. -/
theorem readEntries_of_plain {ps : List Piece} {entries : List ArchiveEntry}
    (each : List.Forall₂ (fun p e => c.encodePiece p = .ok e) ps entries)
    (plain : ∀ p ∈ ps, p.Plain)
    (reprints : ∀ p ∈ ps, ∀ name v, p = .workspace name v → v.Reprints)
    (legible : ∀ e ∈ entries, e.Legible) :
    ∃ found, readEntries (entries.map ArchiveEntry.toFile) = .ok found ∧
      List.Forall₂ ArchiveEntry.Shows found ps := by
  induction each with
  | nil => exact ⟨[], rfl, .nil⟩
  | cons first _ ih =>
    rw [List.forall_mem_cons] at plain reprints legible
    obtain ⟨e, read, shows⟩ := shows_of_encodePiece plain.1 reprints.1 first legible.1
    obtain ⟨found, others, rest⟩ := ih plain.2 reprints.2 legible.2
    refine ⟨e :: found, ?_, .cons shows rest⟩
    rw [List.map_cons, readEntries, read, others]
    rfl

theorem encodeEntries_draft (g : Contents) :
    c.encodeEntries g = g.draft.pieces.mapM c.encodePiece :=
  encodeEntries_eq (c := c) (d := g.draft) (g := { g with references := c.options.references }) rfl

/-- What is saved are the entries of the pieces, no two of one path. -/
theorem save_eq_ok {g : Contents} {files : List StoredFile} (h : c.save g = .ok files) :
    ∃ entries, c.encodeEntries g = .ok entries ∧ files = entries.map ArchiveEntry.toFile ∧
      (entries.map ArchiveEntry.path).Nodup ∧
      ∀ path ∈ g.assets.keys, (EntryKind.classify path).isJson = false := by
  obtain ⟨⟨⟩, valid, h⟩ := Outcome.bind_eq_ok.mp h
  obtain ⟨entries, encoded, written⟩ := Outcome.bind_eq_ok.mp h
  obtain ⟨⟨distinct, -⟩, rfl⟩ := writeFrom_eq_ok written
  obtain ⟨⟨⟩, paths, -⟩ := Outcome.bind_eq_ok.mp valid
  exact ⟨entries, encoded, rfl, distinct, validateAssetPaths_eq_ok.mp paths⟩

/-- Everything in contents has a name or path that it keeps on the way through an archive, and all
JSON is read again. -/
structure Faithful (c : Codec) (g : Contents) : Prop where
  pages : ∀ id ∈ g.pages.keys, FlatName id
  workspace : ∀ p ∈ g.workspace, FlatName p.1 ∧ p.2.Reprints
  assets : ∀ path ∈ g.assets.keys, isDirectory path = false
  legible : ∀ entries, c.encodeEntries g = .ok entries → ∀ e ∈ entries, e.Legible

/-- Among entries are the pages, workspace documents and assets of contents. -/
structure Among (g : Contents) (entries : List ArchiveEntry) : Prop where
  pages : g.pages.keys ⊆ entries.filterMap ArchiveEntry.pageId?
  workspace : g.workspace ⊆ entries.filterMap ArchiveEntry.workspace?
  assets : g.assets ⊆ entries.filterMap ArchiveEntry.asset?

theorem mem_pieces_page {g : Contents} {id : String} {r : Record} :
    Piece.page id r ∈ g.draft.pieces ↔ (id, r) ∈ g.pages := by
  simp [Draft.pieces, Contents.draft]

theorem mem_pieces_workspace {g : Contents} {name : String} {v : Json} :
    Piece.workspace name v ∈ g.draft.pieces ↔ (name, v) ∈ g.workspace := by
  simp [Draft.pieces, Contents.draft]

theorem mem_pieces_asset {g : Contents} {path : String} {bytes : List UInt8} :
    Piece.asset path bytes ∈ g.draft.pieces ↔ (path, bytes) ∈ g.assets := by
  simp [Draft.pieces, Contents.draft]

theorem plain_of_names {g : Contents} (pages : ∀ id ∈ g.pages.keys, FlatName id)
    (workspace : ∀ p ∈ g.workspace, FlatName p.1)
    (assets : ∀ path ∈ g.assets.keys, isDirectory path = false)
    (binary : ∀ path ∈ g.assets.keys, (EntryKind.classify path).isJson = false) :
    ∀ p ∈ g.draft.pieces, p.Plain := by
  intro p mem
  cases p with
  | document r | metadata r | user d => trivial
  | page id r => exact pages id (List.mem_map_of_mem (mem_pieces_page.mp mem))
  | workspace name v => exact workspace _ (mem_pieces_workspace.mp mem)
  | asset path bytes =>
    have key : path ∈ g.assets.keys := List.mem_map_of_mem (mem_pieces_asset.mp mem)
    exact ⟨assets path key, binary path key⟩

/-- What is faithful is found again as it was. -/
theorem readEntries_of_faithful {g : Contents} (faithful : c.Faithful g) {files : List StoredFile}
    (saved : c.save g = .ok files) :
    ∃ found, readEntries files = .ok found ∧
      found.filterMap ArchiveEntry.pageId? = g.pages.keys ∧
      found.filterMap ArchiveEntry.workspace? = g.workspace ∧
      found.filterMap ArchiveEntry.asset? = g.assets := by
  obtain ⟨entries, encoded, rfl, -, binary⟩ := save_eq_ok saved
  have legible := faithful.legible entries encoded
  rw [encodeEntries_draft, Outcome.mapM_eq_ok] at encoded
  have plain := plain_of_names faithful.pages (fun p mem => (faithful.workspace p mem).1)
    faithful.assets binary
  have reprints (p) (mem : p ∈ g.draft.pieces) (name v) (eq : p = .workspace name v) :
      v.Reprints := by
    subst eq
    exact (faithful.workspace _ (mem_pieces_workspace.mp mem)).2
  obtain ⟨found, read, shows⟩ := readEntries_of_plain encoded plain reprints legible
  refine ⟨found, read, ?_, ?_, ?_⟩
  · exact (filterMap_of_shows shows fun _ _ => ArchiveEntry.Shows.pageId?).trans
      (Draft.filterMap_pageId?_pieces _)
  · exact (filterMap_of_shows shows fun _ _ => ArchiveEntry.Shows.workspace?).trans
      (Draft.filterMap_workspace?_pieces _)
  · exact (filterMap_of_shows shows fun _ _ => ArchiveEntry.Shows.asset?).trans
      (Draft.filterMap_asset?_pieces _)

/-- In files that can all be read, the JSON of plain pieces is read again at its path. -/
theorem legible_of_readEntries {ps : List Piece} (plain : ∀ p ∈ ps, p.Plain)
    {entries found : List ArchiveEntry}
    (each : List.Forall₂ (fun p e => c.encodePiece p = .ok e) ps entries)
    (read : readEntries (entries.map ArchiveEntry.toFile) = .ok found) {path : String} {v : Json}
    (mem : ⟨path, .json v⟩ ∈ entries) :
    ∃ w, Json.parseBytes v.render.toUTF8.toList = .ok w ∧ ⟨path, .json w⟩ ∈ found := by
  obtain ⟨p, both⟩ := Outcome.exists_mem_zip_right each.length_eq mem
  have piece := plain p (List.of_mem_zip both).1
  rcases encodePiece_json (List.forall₂_zip each both) with ⟨v', eq, other, -⟩ | ⟨_, _, -, eq⟩
  · cases eq
    obtain ⟨o, first, among⟩ := ofFile?_of_readEntries read (List.mem_map_of_mem mem)
    rw [ArchiveEntry.ofFile?_json piece.file (piece.isJson other)] at first
    split at first
    · next w parsed =>
      cases first
      exact ⟨w, parsed, among List.mem_cons_self⟩
    · cases first
  · cases eq

/-- What is found again was faithful. -/
theorem faithful_of_among {g : Contents} {files : List StoredFile} (saved : c.save g = .ok files)
    {found : List ArchiveEntry} (read : readEntries files = .ok found) (among : Among g found) :
    c.Faithful g := by
  obtain ⟨entries, encoded, rfl, distinct, binary⟩ := save_eq_ok saved
  obtain ⟨paths, from'⟩ := readEntries_readFrom read
  have each := encoded
  rw [encodeEntries_draft, Outcome.mapM_eq_ok] at each
  have pages (id) (mem : id ∈ g.pages.keys) : FlatName id := by
    obtain ⟨e, -, eq⟩ := List.mem_filterMap.mp (among.pages mem)
    exact ArchiveEntry.pageId?_eq_some eq
  have workspace (p) (mem : p ∈ g.workspace) : FlatName p.1 := by
    obtain ⟨e, -, eq⟩ := List.mem_filterMap.mp (among.workspace mem)
    exact (ArchiveEntry.workspace?_eq_some eq).1
  have assets (path) (mem : path ∈ g.assets.keys) : isDirectory path = false := by
    obtain ⟨⟨_, bytes⟩, pair, rfl⟩ := List.mem_map.mp mem
    obtain ⟨e, listed, eq⟩ := List.mem_filterMap.mp (among.assets pair)
    obtain ⟨f, -, stored⟩ := from' e listed
    rw [← ArchiveEntry.asset?_eq_some eq, stored.path]
    exact stored.file
  have plain := plain_of_names pages workspace assets binary
  refine ⟨pages, fun p mem => ⟨workspace p mem, ?_⟩, assets, fun entries' encoded' e mem v eq => ?_⟩
  · obtain ⟨name, v⟩ := p
    have piece := mem_pieces_workspace.mpr mem
    obtain ⟨e, both⟩ := Outcome.exists_mem_zip each.length_eq piece
    cases List.forall₂_zip each both
    obtain ⟨w, parsed, here⟩ := legible_of_readEntries plain each read (List.of_mem_zip both).2
    obtain ⟨e, there, eq⟩ := List.mem_filterMap.mp (among.workspace mem)
    rw [(ArchiveEntry.workspace?_eq_some eq).2] at there
    -- No two entries that are read have one path.
    have nodup : (found.map ArchiveEntry.path).Nodup := by
      rw [paths, filePaths, List.map_map]
      exact distinct.sublist List.filter_sublist
    have same := List.inj_on_of_nodup_map nodup here there rfl
    cases same
    exact parsed
  · obtain rfl := Except.ok.inj (encoded.symm.trans encoded')
    obtain ⟨path, content⟩ := e
    obtain rfl : content = .json v := eq
    obtain ⟨w, parsed, -⟩ := legible_of_readEntries plain each read mem
    exact ⟨w, parsed⟩

/-- What contents are saved as holds all of them just when they are faithful, and then it holds
nothing else. -/
theorem save_readBack {g : Contents} {files : List StoredFile} (saved : c.save g = .ok files) :
    ((∃ found, readEntries files = .ok found ∧ Among g found) ↔ c.Faithful g) ∧
    (c.Faithful g → ∃ found, readEntries files = .ok found ∧
      found.filterMap ArchiveEntry.pageId? = g.pages.keys ∧
      found.filterMap ArchiveEntry.workspace? = g.workspace ∧
      found.filterMap ArchiveEntry.asset? = g.assets) := by
  refine ⟨⟨?_, fun faithful => ?_⟩, fun faithful => readEntries_of_faithful faithful saved⟩
  · rintro ⟨found, read, among⟩
    exact faithful_of_among saved read among
  · obtain ⟨found, read, pages, workspace, assets⟩ := readEntries_of_faithful faithful saved
    exact ⟨found, read, pages ▸ List.Subset.refl _, workspace ▸ List.Subset.refl _,
      assets ▸ List.Subset.refl _⟩

/-- A codec for records without fields. -/
def bare : Codec :=
  let entry (name : String) : String × Entry := (name, ⟨name, "", none, .record []⟩)
  { bindings := .ofCatalog ⟨[entry "Document", entry "Meta", entry "Page"]⟩ }

/-- Contents of records without fields. -/
def bareContents (pages : List String) (workspace : Assoc Json) (assets : Assoc (List UInt8)) :
    Contents :=
  { document := { typeName := "Document" }, metadata := { typeName := "Meta" }
    pages := pages.map fun id => (id, { typeName := "Page" }), workspace, assets }

theorem save_readBack_bare :
    let g := bareContents ["p", "q.json"] [("w", .array [.null])] [("images/a.png", [137, 80])]
    ∃ files found, bare.save g = .ok files ∧ bare.Faithful g ∧ readEntries files = .ok found ∧
      found.filterMap ArchiveEntry.pageId? = ["p", "q.json"] ∧
      found.filterMap ArchiveEntry.workspace? = [("w", .array [.null])] ∧
      found.filterMap ArchiveEntry.asset? = [("images/a.png", [137, 80])] := by
  intro g
  have runs : (match bare.save g >>= readEntries with
      | .ok found => decide (g.pages.keys ⊆ found.filterMap ArchiveEntry.pageId? ∧
        g.workspace ⊆ found.filterMap ArchiveEntry.workspace? ∧
        g.assets ⊆ found.filterMap ArchiveEntry.asset?)
      | .error _ => false) = true := by
    decide +kernel
  split at runs
  · next found run =>
    obtain ⟨files, saved, read⟩ := Outcome.bind_eq_ok.mp run
    obtain ⟨pages, workspace, assets⟩ := of_decide_eq_true runs
    obtain ⟨same, back⟩ := save_readBack saved
    have faithful : bare.Faithful g := same.mp ⟨found, read, pages, workspace, assets⟩
    obtain ⟨found, read, back⟩ := back faithful
    exact ⟨files, found, saved, faithful, read, back⟩
  · cases runs

/-- A page whose identifier holds a slash comes back as an asset. -/
theorem save_readBack_slash :
    ∃ files found, bare.save (bareContents ["a/b"] [] []) = .ok files ∧
      readEntries files = .ok found ∧ found.filterMap ArchiveEntry.pageId? = [] ∧
      found.filterMap ArchiveEntry.asset? = [("pages/a/b.json", [123, 125])] := by
  have runs : (match bare.save (bareContents ["a/b"] [] []) >>= readEntries with
      | .ok found => decide (found.filterMap ArchiveEntry.pageId? = [] ∧
        found.filterMap ArchiveEntry.asset? = [("pages/a/b.json", [123, 125])])
      | .error _ => false) = true := by
    decide +kernel
  split at runs
  · next found run =>
    obtain ⟨files, saved, read⟩ := Outcome.bind_eq_ok.mp run
    exact ⟨files, found, saved, read, of_decide_eq_true runs⟩
  · cases runs

end Codec

end TypedArchive.Archive
