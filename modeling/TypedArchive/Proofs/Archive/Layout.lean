import Mathlib.Data.List.TakeDrop
import TypedArchive.Proofs.Archive.Entry

/-! Paths made of a directory and a name. The name of a page or workspace document can be read off
its path when it is not empty and holds no slash; else its entry is taken for an asset. -/

namespace TypedArchive.Archive

/-- A name that stands for itself between a directory and `.json`. -/
def FlatName (name : String) : Prop := name ≠ "" ∧ '/' ∉ name.toList

instance (name : String) : Decidable (FlatName name) :=
  inferInstanceAs (Decidable (_ ∧ _))

/-- The path of a JSON file in a directory. -/
def jsonPath (directory name : String) : String := directory ++ "/" ++ name ++ ".json"

theorem toList_jsonPath (directory name : String) :
    (jsonPath directory name).toList =
      directory.toList ++ '/' :: (name.toList ++ jsonSuffix) := by
  simp [jsonPath, String.toList_append, jsonSuffix]

theorem isFlatJson_append (name : String) :
    isFlatJson (name.toList ++ jsonSuffix) = decide (FlatName name) := by
  have ends : jsonSuffix.isSuffixOf (name.toList ++ jsonSuffix) = true :=
    List.isSuffixOf_iff_suffix.mpr (List.suffix_append _ _)
  have long : jsonSuffix.length < (name.toList ++ jsonSuffix).length ↔ name ≠ "" := by
    rw [List.length_append, Nat.lt_add_left_iff_pos, List.length_pos_iff, ne_eq, ne_eq,
      String.toList_eq_nil_iff]
  have slash : '/' ∈ name.toList ++ jsonSuffix ↔ '/' ∈ name.toList := by
    simp [jsonSuffix]
  rw [Bool.eq_iff_iff, isFlatJson, ends, Bool.and_true, Bool.and_eq_true, decide_eq_true_iff,
    decide_eq_true_iff, long, Bool.not_eq_true', List.contains_eq_mem, decide_eq_false_iff_not,
    slash, FlatName, and_comm]

theorem not_root_of_slash {path : String} (slash : '/' ∈ path.toList) :
    path ≠ documentPath ∧ path ≠ metaPath ∧ path ≠ userPath := by
  refine ⟨?_, ?_, ?_⟩ <;> rintro rfl <;> revert slash <;> decide

/-- What stands before and after the first slash of a path. -/
theorem span_jsonPath (directory : String) (plain : '/' ∉ directory.toList) (name : String) :
    (jsonPath directory name).toList.takeWhile (· != '/') = directory.toList ∧
      (jsonPath directory name).toList.dropWhile (· != '/') =
        '/' :: (name.toList ++ jsonSuffix) := by
  have other : ∀ c ∈ directory.toList, (c != '/') = true := fun c mem =>
    bne_iff_ne.mpr (ne_of_mem_of_not_mem mem plain)
  rw [toList_jsonPath]
  constructor
  · rw [List.takeWhile_append_of_pos other, List.takeWhile_cons_of_neg (by decide),
      List.append_nil]
  · rw [List.dropWhile_append_of_pos other, List.dropWhile_cons_of_neg (by decide)]

theorem classify_pagePath (id : String) :
    EntryKind.classify (pagePath id) = if FlatName id then .page else .other := by
  have slash : '/' ∈ (jsonPath pagesDirectory id).toList := by
    rw [toList_jsonPath]
    simp
  obtain ⟨document, metadata, user⟩ := not_root_of_slash slash
  obtain ⟨before, after⟩ := span_jsonPath pagesDirectory (by decide) id
  change EntryKind.classify (jsonPath pagesDirectory id) = _
  rw [EntryKind.classify, if_neg document, if_neg metadata, if_neg user, before, after]
  simp [pagesDirectory, isFlatJson_append]

theorem classify_workspacePath (name : String) :
    EntryKind.classify (workspacePath name) = if FlatName name then .workspace else .other := by
  have slash : '/' ∈ (jsonPath workspaceDirectory name).toList := by
    rw [toList_jsonPath]
    simp
  obtain ⟨document, metadata, user⟩ := not_root_of_slash slash
  obtain ⟨before, after⟩ := span_jsonPath workspaceDirectory (by decide) name
  change EntryKind.classify (jsonPath workspaceDirectory name) = _
  rw [EntryKind.classify, if_neg document, if_neg metadata, if_neg user, before, after]
  simp [workspaceDirectory, isFlatJson_append]

theorem entryStem_jsonPath (directory : String) {name : String} (plain : '/' ∉ name.toList) :
    entryStem (jsonPath directory name) = name := by
  have flat : '/' ∉ name.toList ++ jsonSuffix := by
    simpa [jsonSuffix] using plain
  rw [entryStem, toList_jsonPath, fileName_append_slash _ flat, withoutSuffix?_append,
    Option.getD_some, String.ofList_toList]

theorem isDirectory_jsonPath (directory name : String) :
    isDirectory (jsonPath directory name) = false := by
  have last : (jsonPath directory name).toList.getLast? = some 'n' := by
    rw [toList_jsonPath, ← List.cons_append, ← List.append_assoc, List.getLast?_append]
    rfl
  rw [isDirectory, last]
  rfl

/-- Only flat names are read off paths. -/
theorem flatName_of_classify {path : String}
    (h : EntryKind.classify path = .page ∨ EntryKind.classify path = .workspace) :
    FlatName (entryStem path) := by
  by_contra name
  have fits := EntryKind.classify_fits path
  rcases h with kind | kind
  · rw [kind] at fits
    have other := (classify_pagePath (entryStem path)).trans (if_neg name)
    rw [← (fits : path = pagePath (entryStem path)), kind] at other
    cases other
  · rw [kind] at fits
    have other := (classify_workspacePath (entryStem path)).trans (if_neg name)
    rw [← (fits : path = workspacePath (entryStem path)), kind] at other
    cases other

end TypedArchive.Archive
