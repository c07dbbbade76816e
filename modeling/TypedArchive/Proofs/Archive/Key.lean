import Mathlib.Logic.Function.Basic
import TypedArchive.Proofs.Archive.Layout

/-! What the path of an entry names: one of the fixed entries, a page, a workspace document or an
asset. Each of these has one path, and each path names one of them. -/

namespace TypedArchive.Archive

/-- The entries of a kind are those with a flat name, and the name is read off the path. -/
structure EntryKind.NamedBy (kind : EntryKind) (toPath : String → String) : Prop where
  classify : ∀ path, classify path = kind ↔ ∃ name, FlatName name ∧ path = toPath name
  stem : ∀ path name, FlatName name → path = toPath name → name = entryStem path

/-- JSON in a directory is named by its path, if there the kind asks for a flat name and for nothing
else. -/
theorem namedBy_jsonPath {kind : EntryKind} (directory : String)
    (flat : ∀ name, EntryKind.classify (jsonPath directory name) = kind ↔ FlatName name)
    (fits : ∀ path, EntryKind.classify path = kind → path = jsonPath directory (entryStem path)) :
    kind.NamedBy (jsonPath directory) where
  classify path := by
    constructor
    · intro h
      have built := fits path h
      rw [built] at h
      exact ⟨entryStem path, (flat _).mp h, built⟩
    · rintro ⟨name, plain, rfl⟩
      exact (flat name).mpr plain
  stem path name plain eq := by
    rw [eq]
    exact (entryStem_jsonPath directory plain.2).symm

theorem page_namedBy : EntryKind.page.NamedBy pagePath := by
  refine namedBy_jsonPath pagesDirectory (fun id => ?_) fun path kind => ?_
  · have kind : EntryKind.classify (jsonPath pagesDirectory id) = _ := classify_pagePath id
    rw [kind]
    split <;> simp_all
  · have fits := EntryKind.classify_fits path
    rwa [kind] at fits

theorem workspace_namedBy : EntryKind.workspace.NamedBy workspacePath := by
  refine namedBy_jsonPath workspaceDirectory (fun name => ?_) fun path kind => ?_
  · have kind : EntryKind.classify (jsonPath workspaceDirectory name) = _ :=
      classify_workspacePath name
    rw [kind]
    split <;> simp_all
  · have fits := EntryKind.classify_fits path
    rwa [kind] at fits

/-- What an entry is for. Pages and workspace documents have flat names; an asset has a path that is
kept for nothing else. -/
inductive EntryKey where
  | document | metadata | user
  | page (id : String) (flat : FlatName id)
  | workspace (name : String) (flat : FlatName name)
  | asset (path : String) (free : (EntryKind.classify path).isAsset = true)

namespace EntryKey

def path : EntryKey → String
  | .document => documentPath
  | .metadata => metaPath
  | .user => userPath
  | .page id _ => pagePath id
  | .workspace name _ => workspacePath name
  | .asset path _ => path

/-- What a path of a kind names. -/
def ofKind (path : String) : (kind : EntryKind) → EntryKind.classify path = kind → EntryKey
  | .document, _ => .document
  | .metadata, _ => .metadata
  | .user, _ => .user
  | .page, kind => .page (entryStem path) (flatName_of_classify (.inl kind))
  | .workspace, kind => .workspace (entryStem path) (flatName_of_classify (.inr kind))
  | .preview, kind | .image, kind | .other, kind => .asset path (by rw [kind]; rfl)

def ofPath (path : String) : EntryKey := ofKind path _ rfl

theorem ofPath_eq {path : String} {kind : EntryKind} (h : EntryKind.classify path = kind) :
    ofPath path = ofKind path kind h := by
  subst h
  rfl

theorem path_ofKind {path : String} {kind : EntryKind} (h : EntryKind.classify path = kind) :
    (ofKind path kind h).path = path := by
  have fits := EntryKind.classify_fits path
  rw [h] at fits
  cases kind with
  | document | metadata | user | page | workspace => exact Eq.symm fits
  | preview | image | other => rfl

theorem ofPath_path (k : EntryKey) : ofPath k.path = k := by
  cases k with
  | document | metadata | user => rfl
  | page id flat =>
    have kind := (page_namedBy.classify _).mpr ⟨id, flat, rfl⟩
    have stem := page_namedBy.stem _ id flat rfl
    rw [path, ofPath_eq kind, ofKind, EntryKey.page.injEq]
    exact stem.symm
  | workspace name flat =>
    have kind := (workspace_namedBy.classify _).mpr ⟨name, flat, rfl⟩
    have stem := workspace_namedBy.stem _ name flat rfl
    rw [path, ofPath_eq kind, ofKind, EntryKey.workspace.injEq]
    exact stem.symm
  | asset path free =>
    cases kind : EntryKind.classify path with
    | document | metadata | user | page | workspace =>
      rw [kind] at free
      cases free
    | preview | image | other => exact ofPath_eq kind

theorem path_bijective : Function.Bijective path :=
  Function.bijective_iff_has_inverse.mpr ⟨ofPath, ofPath_path, fun _ => path_ofKind rfl⟩

end EntryKey

/-- Kinds and names are read off the paths of pages and workspace documents, and no path is used
twice: not for two of these, nor for one of them and a fixed entry or an asset. -/
theorem entryKey_exact : EntryKind.page.NamedBy pagePath ∧ EntryKind.workspace.NamedBy workspacePath ∧
    Function.Bijective EntryKey.path :=
  ⟨page_namedBy, workspace_namedBy, EntryKey.path_bijective⟩

end TypedArchive.Archive
