import TypedArchive.Archive.Entry
import TypedArchive.Proofs.Json.Sorted
import TypedArchive.Proofs.Outcome

/-! Paths and files of an archive: the name of a page or workspace document gives its path back, and
entries that were read are written as files from which they are read again. -/

namespace TypedArchive

/-- The text of the value is read as the value. -/
def Json.Reprints (v : Json) : Prop := Json.parseBytes v.render.toUTF8.toList = .ok v

instance (v : Json) : Decidable v.Reprints :=
  inferInstanceAs (Decidable (_ = _))

namespace Archive

open Zip (StoredFile)

theorem fileName_append_slash (directory : List Char) {file : List Char} (flat : '/' ∉ file) :
    fileName (directory ++ '/' :: file) = file := by
  have all : ∀ c ∈ file.reverse, (c != '/') = true := fun c mem =>
    bne_iff_ne.mpr (ne_of_mem_of_not_mem (List.mem_reverse.mp mem) flat)
  rw [fileName, List.reverse_append, List.reverse_cons, List.append_assoc,
    List.takeWhile_append_of_pos all, List.singleton_append, List.takeWhile_cons_of_neg (by decide),
    List.append_nil, List.reverse_reverse]

theorem withoutSuffix?_append (stem suffix : List Char) :
    withoutSuffix? suffix (stem ++ suffix) = some stem := by
  have ends : suffix.isSuffixOf (stem ++ suffix) = true :=
    List.isSuffixOf_iff_suffix.mpr (List.suffix_append _ _)
  rw [withoutSuffix?, if_pos ends, List.length_append, Nat.add_sub_cancel, List.take_left]

/-- The path of a flat JSON file is made of its directory and its stem. -/
theorem flatJson_path {path : String} {c : Char} {file : List Char} {directory : String}
    (after : path.toList.dropWhile (· != '/') = c :: file)
    (before : String.ofList (path.toList.takeWhile (· != '/')) = directory)
    (flat : isFlatJson file = true) :
    path = directory ++ "/" ++ entryStem path ++ ".json" := by
  simp only [isFlatJson, Bool.and_eq_true, Bool.not_eq_true', List.contains_eq_mem,
    decide_eq_false_iff_not, decide_eq_true_eq] at flat
  obtain ⟨⟨noSlash, suffix⟩, -⟩ := flat
  obtain ⟨stem, rfl⟩ := List.isSuffixOf_iff_suffix.mp suffix
  have slash : c = '/' := by
    have head := List.head?_dropWhile_not (fun c => c != '/') path.toList
    rw [after] at head
    simpa using head
  subst slash
  have chars : path.toList = directory.toList ++ '/' :: (stem ++ jsonSuffix) := by
    rw [← before, String.toList_ofList, ← after, List.takeWhile_append_dropWhile]
  have name : entryStem path = String.ofList stem := by
    rw [entryStem, chars, fileName_append_slash _ noSlash, withoutSuffix?_append, Option.getD_some]
  rw [name]
  refine String.toList_inj.mp ?_
  rw [chars]
  simp [String.toList_append, jsonSuffix]

/-- The path that entries of a kind have; assets may have any other. -/
def EntryKind.Fits (path : String) : EntryKind → Prop
  | .document => path = documentPath
  | .metadata => path = metaPath
  | .user => path = userPath
  | .page => path = pagePath (entryStem path)
  | .workspace => path = workspacePath (entryStem path)
  | .preview | .image | .other => True

theorem EntryKind.classify_fits (path : String) : (classify path).Fits path := by
  rw [classify]
  split
  · next eq => exact eq
  split
  · next eq => exact eq
  split
  · next eq => exact eq
  split
  · trivial
  · next after =>
    split
    · next before =>
      split
      · next flat => exact flatJson_path after before flat
      · trivial
    · next before =>
      split
      · next flat => exact flatJson_path after before flat
      · trivial
    · trivial
    · trivial
    · trivial

/-- An entry as it is read from a file: JSON and bytes stand where the path says, and JSON is
written so that it is read again. -/
structure ArchiveEntry.Stored (e : ArchiveEntry) : Prop where
  file : isDirectory e.path = false
  json : ∀ v, e.content = .json v → e.kind.isJson = true ∧ v.Sorted ∧ v.Reprints
  binary : ∀ bytes, e.content = .binary bytes → e.kind.isJson = false

/-- The JSON in a file is written so that it is read again. -/
def FileReprints (f : StoredFile) : Prop :=
  (EntryKind.classify f.path).isJson = true → ∀ bytes, f.content = .ok bytes →
    ∀ v, Json.parseBytes bytes = .ok v → v.Reprints

instance (f : StoredFile) : Decidable (FileReprints f) :=
  match content : f.content with
  | .error _ => isTrue fun _ bytes eq => by rw [content] at eq; cases eq
  | .ok bytes =>
    match parsed : Json.parseBytes bytes with
    | .error _ => isTrue fun _ bytes' eq v eq' => by
      rw [content] at eq
      cases eq
      rw [parsed] at eq'
      cases eq'
    | .ok v => decidable_of_iff ((EntryKind.classify f.path).isJson = true → v.Reprints) <| by
      simp only [FileReprints, content, Except.ok.injEq, forall_eq', parsed]

/-- What is read from a file that is no directory. -/
structure ArchiveEntry.ReadFrom (e : ArchiveEntry) (f : StoredFile) : Prop where
  file : isDirectory f.path = false
  path : e.path = f.path
  json : ∀ v, e.content = .json v → e.kind.isJson = true ∧
    ∃ bytes, f.content = .ok bytes ∧ Json.parseBytes bytes = .ok v
  binary : ∀ bytes, e.content = .binary bytes → e.kind.isJson = false

theorem ArchiveEntry.ofFile?_ok {f : StoredFile} {e : Option ArchiveEntry}
    (h : ofFile? f = .ok e) :
    (isDirectory f.path = true ∧ e = none) ∨ ∃ e', e = some e' ∧ e'.ReadFrom f := by
  rw [ofFile?] at h
  split at h
  · cases h
  · split at h
    · next directory =>
      cases h
      exact Or.inl ⟨directory, rfl⟩
    · cases h
  · next bytes content =>
    split at h
    · next directory =>
      cases h
      exact Or.inl ⟨directory, rfl⟩
    · next file =>
      have file := Bool.eq_false_iff.mpr file
      obtain ⟨e', read, rfl⟩ := Outcome.map_eq_ok.mp h
      refine Or.inr ⟨e', rfl, ?_⟩
      rw [ofBytes] at read
      split at read
      · next isJson =>
        split at read
        · next v parsed =>
          cases read
          refine ⟨file, rfl, fun w eq => ?_, nofun⟩
          cases eq
          exact ⟨isJson, bytes, content, parsed⟩
        · cases read
      · next isBinary =>
        cases read
        exact ⟨file, rfl, nofun, fun _ _ => Bool.eq_false_iff.mpr isBinary⟩

theorem ArchiveEntry.ReadFrom.sorted {e : ArchiveEntry} {f : StoredFile} (read : e.ReadFrom f)
    {v : Json} (content : e.content = .json v) : v.Sorted := by
  obtain ⟨-, bytes, -, parsed⟩ := read.json v content
  exact Json.parseBytes_sorted parsed

theorem ArchiveEntry.ReadFrom.stored {e : ArchiveEntry} {f : StoredFile} (read : e.ReadFrom f)
    (reprints : FileReprints f) : e.Stored where
  file := read.path ▸ read.file
  json v content := by
    obtain ⟨isJson, bytes, stored, parsed⟩ := read.json v content
    rw [kind, read.path] at isJson ⊢
    exact ⟨isJson, read.sorted content, reprints isJson bytes stored v parsed⟩
  binary := read.binary

/-- The paths of the files that are no directories. -/
def filePaths (files : List StoredFile) : List String :=
  (files.map StoredFile.path).filter fun path => !isDirectory path

theorem readEntries_readFrom {files : List StoredFile} {entries : List ArchiveEntry}
    (h : readEntries files = .ok entries) :
    entries.map ArchiveEntry.path = filePaths files ∧
      ∀ e ∈ entries, ∃ f ∈ files, e.ReadFrom f := by
  induction files generalizing entries with
  | nil =>
    cases h
    exact ⟨rfl, nofun⟩
  | cons f files ih =>
    rw [readEntries] at h
    obtain ⟨first, read, h⟩ := Outcome.bind_eq_ok.mp h
    obtain ⟨rest, others, h⟩ := Outcome.bind_eq_ok.mp h
    cases h
    obtain ⟨paths, from'⟩ := ih others
    have later (e) (mem : e ∈ rest) : ∃ f' ∈ f :: files, e.ReadFrom f' := by
      obtain ⟨f', mem', read'⟩ := from' e mem
      exact ⟨f', List.mem_cons_of_mem _ mem', read'⟩
    rw [filePaths, List.map_cons, List.filter_cons]
    rcases ArchiveEntry.ofFile?_ok read with ⟨directory, rfl⟩ | ⟨e, rfl, new⟩
    · rw [directory]
      exact ⟨paths, later⟩
    · rw [new.file]
      refine ⟨congrArg₂ List.cons new.path paths, ?_⟩
      exact List.forall_mem_cons.mpr ⟨⟨f, List.mem_cons_self, new⟩, later⟩

theorem readEntries_ok {files : List StoredFile} {entries : List ArchiveEntry}
    (h : readEntries files = .ok entries) (reprint : ∀ f ∈ files, FileReprints f) :
    entries.map ArchiveEntry.path = filePaths files ∧ ∀ e ∈ entries, e.Stored := by
  obtain ⟨paths, read⟩ := readEntries_readFrom h
  refine ⟨paths, fun e mem => ?_⟩
  obtain ⟨f, mem, read⟩ := read e mem
  exact read.stored (reprint f mem)

/-- The file that an entry is written as. -/
def ArchiveEntry.toFile (e : ArchiveEntry) : StoredFile := ⟨e.path, .ok e.bytes⟩

theorem writeFrom_ok {taken : List String} {entries : List ArchiveEntry}
    (distinct : (entries.map ArchiveEntry.path).Nodup) (free : ∀ e ∈ entries, e.path ∉ taken) :
    writeFrom taken entries = .ok (entries.map ArchiveEntry.toFile) := by
  induction entries generalizing taken with
  | nil => rfl
  | cons e entries ih =>
    obtain ⟨absent, distinct⟩ := List.nodup_cons.mp distinct
    rw [List.forall_mem_cons] at free
    rw [writeFrom, if_neg free.1, ih distinct]
    · rfl
    · intro e' mem taken'
      rcases List.mem_cons.mp taken' with eq | taken'
      · exact absent (eq ▸ List.mem_map_of_mem mem)
      · exact free.2 e' mem taken'

theorem ArchiveEntry.Stored.ofFile? {e : ArchiveEntry} (stored : e.Stored) :
    ArchiveEntry.ofFile? e.toFile = .ok (some e) := by
  obtain ⟨path, content⟩ := e
  have file : isDirectory path = false := stored.file
  simp only [ArchiveEntry.ofFile?, toFile, file, Bool.false_eq_true, if_false, ofBytes, bytes]
  cases content with
  | json v =>
    obtain ⟨isJson, -, reprints⟩ := stored.json v rfl
    have isJson : (EntryKind.classify path).isJson = true := isJson
    have reprints : Json.parseBytes v.render.toUTF8.toList = .ok v := reprints
    simp only [isJson, if_true, reprints]
    rfl
  | binary bytes =>
    have isBinary : (EntryKind.classify path).isJson = false := stored.binary bytes rfl
    simp only [isBinary, Bool.false_eq_true, if_false]
    rfl

/-- Entries that are written as files are read from them again. -/
theorem readEntries_toFile {entries : List ArchiveEntry} (stored : ∀ e ∈ entries, e.Stored) :
    readEntries (entries.map ArchiveEntry.toFile) = .ok entries := by
  induction entries with
  | nil => rfl
  | cons e entries ih =>
    rw [List.forall_mem_cons] at stored
    rw [List.map_cons, readEntries, stored.1.ofFile?, ih stored.2]
    rfl

end Archive

end TypedArchive
