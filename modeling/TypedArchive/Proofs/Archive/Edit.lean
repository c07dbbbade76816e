import TypedArchive.Proofs.Archive.ReadBack
import TypedArchive.Proofs.Binding.Edit

/-! Edits stay local. When one field of one page is edited, all other entries are saved as before,
and the entry of the page differs in the member of that field only. -/

namespace TypedArchive.Archive

open Zip (StoredFile)

/-- The entries are the same at the same places, but for one JSON object; and the members of this
object are the same, but for one. -/
def EntriesAgreeBut (path key : String) (entries entries' : List ArchiveEntry) : Prop :=
  ∃ front back members members',
    entries = front ++ ⟨path, .json (.object members)⟩ :: back ∧
    entries' = front ++ ⟨path, .json (.object members')⟩ :: back ∧
    (∀ e ∈ front ++ back, e.path ≠ path) ∧ Assoc.AgreeBut key members members'

theorem EntriesAgreeBut.paths {path key : String} {entries entries' : List ArchiveEntry}
    (agree : EntriesAgreeBut path key entries entries') :
    entries.map ArchiveEntry.path = entries'.map ArchiveEntry.path := by
  obtain ⟨front, back, members, members', rfl, rfl, -⟩ := agree
  simp

/-- The body of a page is replaced in its place. -/
theorem pieces_insertBody {g : Contents} {id : String} {page page' : Record}
    (found : g.page? id = some page) (distinct : (g.pages.insert id page').keys.Nodup) :
    ∃ front back, g.draft.pieces = front ++ .page id page :: back ∧
      (g.insertBody id page').draft.pieces = front ++ .page id page' :: back := by
  obtain ⟨before, after, old, new⟩ := Assoc.insert_split found distinct
  let listed (pages : Assoc Record) : List Piece := pages.map fun p => .page p.1 p.2
  refine ⟨.document g.document :: .metadata g.metadata ::
      (g.user.toList.map .user ++ listed before),
    listed after ++ (g.workspace.map (fun p => .workspace p.1 p.2) ++
      g.assets.map fun p => .asset p.1 p.2), ?_, ?_⟩
  · simp [Draft.pieces, Contents.draft, old, listed]
  · simp [Draft.pieces, Contents.draft, Contents.insertBody, new, listed]

namespace Codec

variable {c : Codec}

theorem encodePiece_path {p : Piece} {e : ArchiveEntry} (h : c.encodePiece p = .ok e) :
    e.path = p.path := by
  rcases encodePiece_json h with ⟨v, rfl, -⟩ | ⟨path, bytes, rfl, rfl⟩ <;> rfl

/-- In contents that can be saved no two pages have one identifier. -/
theorem pages_nodup {g : Contents} {entries : List ArchiveEntry}
    (encoded : c.encodeEntries g = .ok entries)
    (distinct : (entries.map ArchiveEntry.path).Nodup) : g.pages.keys.Nodup := by
  rw [encodeEntries_draft, Outcome.mapM_eq_ok] at encoded
  have paths : g.draft.pieces.map Piece.path = entries.map ArchiveEntry.path :=
    Outcome.map_eq_map_iff.mpr ⟨encoded.length_eq, fun p mem =>
      (encodePiece_path (List.forall₂_zip encoded mem)).symm⟩
  have pages : (g.pages.map fun p => Piece.page p.1 p.2).Sublist g.draft.pieces := by
    unfold Draft.pieces
    apply List.Sublist.trans _ (List.sublist_append_right _ _)
    apply List.Sublist.trans _ (List.sublist_append_right _ _)
    apply List.Sublist.trans _ (List.sublist_append_right _ _)
    exact List.sublist_append_left _ _
  rw [← paths] at distinct
  have distinct := distinct.sublist (pages.map Piece.path)
  rw [List.map_map] at distinct
  have named : (g.pages.keys.map pagePath).Nodup := by
    rwa [Assoc.keys, List.map_map]
  exact named.of_map

theorem encodePiece_page_edit {id field : String} {page page' : Record} {e e' : ArchiveEntry}
    (edit : page.EditOf field page') (h : c.encodePiece (.page id page) = .ok e)
    (h' : c.encodePiece (.page id page') = .ok e') :
    ∃ members members', e = ⟨pagePath id, .json (.object members)⟩ ∧
      e' = ⟨pagePath id, .json (.object members')⟩ ∧ Assoc.AgreeBut field members members' := by
  have written {r : Record} {e : ArchiveEntry} (h : c.encodePiece (.page id r) = .ok e) :
      ∃ v, c.bindings.catalog.encode c.options.pageType r.toData = .ok v ∧
        ⟨pagePath id, .json v⟩ = e := by
    obtain ⟨v, ok, h⟩ := Outcome.bind_eq_ok.mp h
    rw [Outcome.mapError_eq_ok] at ok
    exact ⟨v, ok, Except.ok.inj h⟩
  obtain ⟨v, ok, rfl⟩ := written h
  obtain ⟨v', ok', rfl⟩ := written h'
  obtain ⟨type, extra, fields⟩ := edit.keeps
  rw [Record.toData, type, extra] at ok'
  obtain ⟨members, members', rfl, rfl, agree⟩ := Catalog.encode_agreeBut fields ok ok'
  exact ⟨members, members', rfl, rfl, agree⟩

/-- Contents and the same contents with one field of one page edited are saved as the same entries
in the same order, but for the entry of this page; and the two JSON objects of the page have the
same members, but for the one of the field. -/
theorem save_edit (c : Codec) {g : Contents} {id field : String} {page page' : Record}
    (found : g.page? id = some page) (edit : page.EditOf field page')
    {files files' : List StoredFile} (saved : c.save g = .ok files)
    (saved' : c.save (g.insertBody id page') = .ok files') :
    ∃ entries entries',
      (c.encodeEntries g = .ok entries ∧ files = entries.map ArchiveEntry.toFile) ∧
      (c.encodeEntries (g.insertBody id page') = .ok entries' ∧
        files' = entries'.map ArchiveEntry.toFile) ∧
      entries.map ArchiveEntry.path = entries'.map ArchiveEntry.path ∧
      EntriesAgreeBut (pagePath id) field entries entries' := by
  obtain ⟨entries, encoded, rfl, distinct, -⟩ := save_eq_ok saved
  obtain ⟨entries', encoded', rfl, distinct', -⟩ := save_eq_ok saved'
  obtain ⟨before, after, pieces, pieces'⟩ :=
    pieces_insertBody found (pages_nodup encoded' distinct')
  have each := encoded
  have each' := encoded'
  rw [encodeEntries_draft, pieces] at each
  rw [encodeEntries_draft, pieces'] at each'
  obtain ⟨front, e, back, rfl, first, middle, last⟩ := Outcome.mapM_append_cons each
  obtain ⟨_, e', _, rfl, first', middle', last'⟩ := Outcome.mapM_append_cons each'
  cases first.symm.trans first'
  cases last.symm.trans last'
  obtain ⟨members, members', rfl, rfl, agree⟩ := encodePiece_page_edit edit middle middle'
  have others (e) (mem : e ∈ front ++ back) : e.path ≠ pagePath id := by
    rw [(List.perm_middle.map ArchiveEntry.path).nodup_iff] at distinct
    have fresh : pagePath id ∉ (front ++ back).map ArchiveEntry.path :=
      (List.nodup_cons.mp distinct).1
    intro eq
    rw [← eq] at fresh
    exact fresh (List.mem_map_of_mem mem)
  have beside : EntriesAgreeBut (pagePath id) field _ _ :=
    ⟨front, back, members, members', rfl, rfl, others, agree⟩
  exact ⟨_, _, ⟨encoded, rfl⟩, ⟨encoded', rfl⟩, beside.paths, beside⟩

set_option maxRecDepth 100000 in
theorem save_edit_name :
    let entry (name : String) (fields : List Field) : String × Entry :=
      (name, ⟨name, "", none, .record fields⟩)
    let c : Codec := { bindings := .ofCatalog ⟨[entry "Document" [], entry "Meta" [],
      entry "Page" [⟨"layers", .array (.primitive .any), true, none⟩,
        ⟨"name", .primitive .string, true, none⟩]]⟩ }
    let page : Record :=
      { typeName := "Page"
        fields := [("layers", .array [.boolean true]), ("name", .string "A")]
        extra := [("order", .number (.ofInt64 7))] }
    let g : Contents :=
      { document := { typeName := "Document" }, metadata := { typeName := "Meta" }
        pages := [("p", page), ("q", page)], workspace := [("w", .null)]
        assets := [("images/a.png", [137, 80])] }
    ∀ page' ∈ [page.insert "name" (.string "B"), page.erase "name"],
      ∃ files files' entries entries', c.save g = .ok files ∧
        c.save (g.insertBody "p" page') = .ok files' ∧
        files = entries.map ArchiveEntry.toFile ∧ files' = entries'.map ArchiveEntry.toFile ∧
        EntriesAgreeBut "pages/p.json" "name" entries entries' := by
  intro entry c page g page' listed
  have edit : page.EditOf "name" page' := by
    simp only [List.mem_cons, List.not_mem_nil, or_false] at listed
    rcases listed with rfl | rfl
    · exact Or.inl ⟨_, rfl⟩
    · exact Or.inr rfl
  have run : (c.save g).isOk = true := by decide +kernel
  have run' : ∀ page' ∈ [page.insert "name" (.string "B"), page.erase "name"],
      (c.save (g.insertBody "p" page')).isOk = true := by
    decide +kernel
  obtain ⟨files, saved⟩ := Outcome.exists_of_isOk run
  obtain ⟨files', saved'⟩ := Outcome.exists_of_isOk (run' page' listed)
  obtain ⟨entries, entries', ⟨-, eq⟩, ⟨-, eq'⟩, -, agree⟩ := save_edit c rfl edit saved saved'
  exact ⟨files, files', entries, entries', saved, saved', eq, eq', agree⟩

end Codec

end TypedArchive.Archive
