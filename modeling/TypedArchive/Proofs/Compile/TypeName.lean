import Mathlib.Data.List.Nodup
import Mathlib.Data.List.Perm.Subperm
import TypedArchive.Compile.TypeName
import TypedArchive.Proofs.Text.Numeral

/-! The names that are given out are free ones, and identifiers. -/

namespace TypedArchive.TypeName

/-- A taken name is given out only when all names from the suffix on are taken. -/
theorem numbered_taken {taken : List String} {base : String} {tries suffix : Nat}
    (h : numbered taken base tries suffix ∈ taken) (k : Nat) (le : k ≤ tries) :
    base ++ toString (suffix + k) ∈ taken := by
  induction tries generalizing suffix k with
  | zero =>
    rw [Nat.le_zero.mp le]
    exact h
  | succ tries ih =>
    rw [numbered] at h
    split at h
    · next first =>
      cases k with
      | zero => exact first
      | succ k =>
        have rest := ih h k (Nat.le_of_succ_le_succ le)
        rwa [Nat.add_assoc, Nat.add_comm 1 k] at rest
    · next free => exact absurd h free

/-- The name that is given out is free: a name and its numbered forms are more than the taken
names. -/
theorem firstFree_not_mem (taken : List String) (base : String) : firstFree taken base ∉ taken := by
  rw [firstFree]
  split
  · next first =>
    intro h
    have distinct : (base :: (List.range (taken.length + 1)).map
        fun k => base ++ toString (2 + k)).Nodup := by
      refine List.nodup_cons.mpr ⟨fun mem => ?_, List.Nodup.map ?_ List.nodup_range⟩
      · obtain ⟨k, -, eq⟩ := List.mem_map.mp mem
        exact Text.append_toString_ne base _ eq
      · exact fun m n eq => Nat.add_left_cancel (Text.append_toString_injective base eq)
    have sub : (base :: (List.range (taken.length + 1)).map
        fun k => base ++ toString (2 + k)) ⊆ taken := by
      refine List.cons_subset.mpr ⟨first, fun name mem => ?_⟩
      obtain ⟨k, lt, rfl⟩ := List.mem_map.mp mem
      exact numbered_taken h k (Nat.le_of_lt_succ (List.mem_range.mp lt))
    have le := (List.subperm_of_subset distinct sub).length_le
    simp only [List.length_cons, List.length_map, List.length_range] at le
    omega
  · next free => exact free

/-- A non-empty text of ASCII letters, digits and underscores that starts with no digit and is not
`Self`. -/
structure IsIdentifier (name : String) : Prop where
  nonempty : name ≠ ""
  characters : ∀ c ∈ name.toList, c.isAlphanum = true ∨ c = '_'
  start : ∀ c ∈ name.toList.head?, c.isDigit = false
  reserved : name ≠ "Self"

instance (name : String) : Decidable (IsIdentifier name) :=
  decidable_of_iff
    (name ≠ "" ∧ (name.toList.all fun c => c.isAlphanum || c == '_') = true ∧
      (name.toList.head?.toList.all fun c => !c.isDigit) = true ∧ name ≠ "Self")
    ⟨fun h => ⟨h.1, by simpa using h.2.1, by simpa using h.2.2.1, h.2.2.2⟩,
      fun h => ⟨h.1, by simpa using h.2, by simpa using h.3, h.4⟩⟩

theorem sanitize_isIdentifier (name : String) : IsIdentifier (sanitize name) := by
  rw [sanitize]
  split
  · decide
  · next c rest kept =>
    have characters (d) (mem : d ∈ (String.ofList (c :: rest)).toList) :
        d.isAlphanum = true ∨ d = '_' := by
      rw [String.toList_ofList, ← kept] at mem
      simpa [allowed] using (List.mem_filter.mp mem).2
    dsimp only
    split
    · have list : ("T" ++ String.ofList (c :: rest)).toList =
          'T' :: (String.ofList (c :: rest)).toList := by
        simp [String.toList_append]
      refine ⟨fun eq => ?_, fun d mem => ?_, fun d mem => ?_, fun eq => ?_⟩
      · simpa using congrArg String.toList eq
      · rw [list, List.mem_cons] at mem
        rcases mem with rfl | mem
        · decide
        · exact characters d mem
      · rw [list, List.head?_cons, Option.mem_some] at mem
        subst mem
        decide
      · simpa using congrArg String.toList eq
    · next start =>
      split
      · decide
      · next other =>
        refine ⟨fun eq => ?_, characters, fun d mem => ?_, other⟩
        · simpa using congrArg String.toList eq
        · rw [String.toList_ofList] at mem
          cases mem
          exact Bool.not_eq_true _ ▸ start

theorem preferred_isIdentifier (n : Node) : IsIdentifier (preferred n) := by
  rw [preferred]
  exact sanitize_isIdentifier _

theorem numbered_eq (taken : List String) (base : String) (tries suffix : Nat) :
    ∃ k : Nat, numbered taken base tries suffix = base ++ toString k := by
  induction tries generalizing suffix with
  | zero => exact ⟨suffix, rfl⟩
  | succ tries ih =>
    rw [numbered]
    split
    · exact ih (suffix + 1)
    · exact ⟨suffix, rfl⟩

theorem IsIdentifier.append_toString {base : String} (h : IsIdentifier base) (k : Nat) :
    IsIdentifier (base ++ toString k) := by
  refine ⟨fun eq => ?_, fun c mem => ?_, fun c mem => ?_, fun eq => ?_⟩
  · exact h.nonempty (String.append_eq_empty_iff.mp eq).1
  · rw [String.toList_append, List.mem_append] at mem
    rcases mem with mem | mem
    · exact h.characters c mem
    · have digit := Text.isDigit_of_mem_toString mem
      simp [Char.isAlphanum, digit]
  · refine h.start c ?_
    rw [String.toList_append, List.head?_append_of_ne_nil] at mem
    · exact mem
    · exact fun eq => h.nonempty (String.toList_inj.mp eq)
  · have last : 'f' ∈ (base ++ toString k).toList.getLast? := by
      rw [eq]
      simp
    exact absurd (Text.isDigit_of_getLast? last) (by decide)

theorem firstFree_isIdentifier (taken : List String) {base : String} (h : IsIdentifier base) :
    IsIdentifier (firstFree taken base) := by
  rw [firstFree]
  split
  · obtain ⟨k, eq⟩ := numbered_eq taken base taken.length 2
    rw [eq]
    exact h.append_toString k
  · exact h

end TypedArchive.TypeName
