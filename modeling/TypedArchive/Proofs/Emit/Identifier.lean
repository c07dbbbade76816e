import Mathlib.Data.Set.Operations
import TypedArchive.Emit.Identifier
import TypedArchive.Proofs.Compile.TypeName

/-! When two names have one identifier. An identifier tells texts apart that are identifiers up to a
leading digit and do not end in an underscore; what it makes of other texts can meet. -/

namespace TypedArchive.Emit

/-- A non-empty text of ASCII letters, digits and underscores with no underscore at the end. -/
structure Tidy (s : String) : Prop where
  nonempty : s ≠ ""
  characters : ∀ c ∈ s.toList, c.isAlphanum = true ∨ c = '_'
  last : ∀ c ∈ s.toList.getLast?, c ≠ '_'

theorem Tidy.toList_ne_nil {s : String} (h : Tidy s) : s.toList ≠ [] :=
  fun eq => h.nonempty (String.toList_inj.mp eq)

theorem Tidy.append_toString {s : String} (h : Tidy s) (k : Nat) : Tidy (s ++ toString k) := by
  refine ⟨fun eq => h.nonempty (String.append_eq_empty_iff.mp eq).1, fun c mem => ?_,
    fun c mem => ?_⟩
  · rw [String.toList_append, List.mem_append] at mem
    rcases mem with mem | mem
    · exact h.characters c mem
    · exact .inl (by simp [Char.isAlphanum, Text.isDigit_of_mem_toString mem])
  · rintro rfl
    exact absurd (Text.isDigit_of_getLast? mem) (by decide)

theorem Tidy.underscore_append {s : String} (h : Tidy s) : Tidy ("_" ++ s) := by
  have list : ("_" ++ s).toList = '_' :: s.toList := by simp [String.toList_append]
  refine ⟨fun eq => h.nonempty (String.append_eq_empty_iff.mp eq).2, fun c mem => ?_, ?_⟩
  · rw [list, List.mem_cons] at mem
    exact mem.elim .inr (h.characters c)
  · rw [list, List.getLast?_cons_of_ne_nil h.toList_ne_nil]
    exact h.last

/-- A tidy text is kept as it is, up to an underscore before a digit. -/
theorem identifierText_of_tidy {s : String} (h : Tidy s) :
    identifierText s = s ∧ (∀ c ∈ s.toList.head?, c.isDigit = false) ∨
      identifierText s = "_" ++ s ∧ ∃ c ∈ s.toList.head?, c.isDigit = true := by
  have kept : (s.toList.map fun c => if c.isAlphanum || c == '_' then c else '_') = s.toList := by
    conv_rhs => rw [← List.map_id s.toList]
    refine List.map_congr_left fun c mem => if_pos ?_
    simpa using h.characters c mem
  rw [identifierText, kept]
  cases list : s.toList with
  | nil => exact absurd list h.toList_ne_nil
  | cons c rest =>
    cases digit : c.isDigit with
    | true =>
      refine .inr ⟨?_, c, by simp, digit⟩
      simp [digit, ← String.toList_inj, String.toList_append, list]
    | false =>
      refine .inl ⟨?_, by simpa using digit⟩
      simp [digit, ← String.toList_inj, list]

/-- The text of an identifier, made distinct from the reserved words. -/
def mark (text : String) : String :=
  if text ∈ unmarkableWords then text ++ "_"
  else if text ∈ reservedWords then "r#" ++ text
  else text

theorem identifier_eq (s : String) : identifier s = mark (identifierText s) := rfl

theorem Tidy.append_ne {s : String} (h : Tidy s) (front text : String) :
    front ++ s ≠ text ++ "_" := by
  intro eq
  have last := congrArg (fun t => t.toList.getLast?) eq
  simp only [String.toList_append, List.getLast?_append_of_ne_nil _ h.toList_ne_nil] at last
  exact h.last '_' (last.trans (by simp)) rfl

theorem Tidy.raw_ne {s : String} (h : Tidy s) (text : String) : "r#" ++ text ≠ s := by
  rintro rfl
  rcases h.characters '#' (by simp [String.toList_append]) with letter | underscore
  · exact absurd letter (by decide)
  · exact absurd underscore (by decide)

theorem mark_cases (text : String) :
    mark text = text ++ "_" ∨ mark text = "r#" ++ text ∨ mark text = text := by
  rw [mark]
  split
  · exact .inl rfl
  · split
    · exact .inr (.inl rfl)
    · exact .inr (.inr rfl)

/-- The marks can be told from the text: no tidy text ends in an underscore or starts as a raw
identifier. -/
theorem mark_injOn : Set.InjOn mark {s | Tidy s} := by
  intro a ha b hb eq
  have closed {s : String} (h : Tidy s) (text : String) : s ≠ text ++ "_" := by
    simpa using h.append_ne "" text
  rcases mark_cases a with eqA | eqA | eqA <;> rcases mark_cases b with eqB | eqB | eqB <;>
    rw [eqA, eqB] at eq
  · simpa [← String.toList_inj, String.toList_append] using eq
  · exact absurd eq.symm (hb.append_ne "r#" a)
  · exact absurd eq.symm (closed hb a)
  · exact absurd eq (ha.append_ne "r#" b)
  · simpa [← String.toList_inj, String.toList_append] using eq
  · exact absurd eq (hb.raw_ne a)
  · exact absurd eq (closed ha b)
  · exact absurd eq.symm (ha.raw_ne b)
  · exact eq

theorem tidy_identifierText {s : String} (h : Tidy s) : Tidy (identifierText s) := by
  rcases identifierText_of_tidy h with ⟨eq, -⟩ | ⟨eq, -⟩
  · rwa [eq]
  · rw [eq]
    exact h.underscore_append

/-- Two tidy texts with one identifier are the same, but for a digit at the start of one and an
underscore at the start of the other. -/
theorem identifier_injOn (start : Char → Prop)
    (separate : start '_' → ∀ c, start c → c.isDigit = false) :
    Set.InjOn identifier {s | Tidy s ∧ ∀ c ∈ s.toList.head?, start c} := by
  rintro a ⟨ha, startA⟩ b ⟨hb, startB⟩ eq
  rw [identifier_eq, identifier_eq] at eq
  replace eq := mark_injOn (tidy_identifierText ha) (tidy_identifierText hb) eq
  -- A text that gets an underscore has a digit first, so the other has no underscore first.
  have apart {s t : String} (startS : ∀ c ∈ s.toList.head?, start c)
      (startT : ∀ c ∈ t.toList.head?, start c) (digit : ∃ c ∈ s.toList.head?, c.isDigit = true) :
      t ≠ "_" ++ s := by
    rintro rfl
    obtain ⟨c, first, digit⟩ := digit
    have underscore := startT '_' (by simp [String.toList_append])
    rw [separate underscore c (startS c first)] at digit
    cases digit
  rcases identifierText_of_tidy ha with ⟨eqA, -⟩ | ⟨eqA, digitA⟩ <;>
    rcases identifierText_of_tidy hb with ⟨eqB, -⟩ | ⟨eqB, digitB⟩ <;> rw [eqA, eqB] at eq
  · exact eq
  · exact absurd eq (apart startB startA digitB)
  · exact absurd eq.symm (apart startA startB digitA)
  · simpa [← String.toList_inj, String.toList_append] using eq

theorem firstFree_eq_numbered (taken : List String) (name : String) (tries number : Nat) :
    firstFree taken name tries number = TypeName.numbered taken name tries number := by
  induction tries generalizing number with
  | zero => rfl
  | succ tries ih =>
    rw [firstFree, TypeName.numbered]
    split
    · exact ih (number + 1)
    · rfl

/-- Names are made distinct as the names of entries are. -/
theorem distinctNames_cons (taken : List String) (name : String) (names : List String) :
    distinctNames taken (name :: names) = TypeName.firstFree taken name ::
      distinctNames (TypeName.firstFree taken name :: taken) names := by
  rw [distinctNames, TypeName.firstFree, firstFree_eq_numbered]

theorem distinctNames_nodup (taken names : List String) :
    (distinctNames taken names).Nodup ∧ ∀ name ∈ distinctNames taken names, name ∉ taken := by
  induction names generalizing taken with
  | nil => exact ⟨.nil, List.forall_mem_nil _⟩
  | cons name names ih =>
    rw [distinctNames_cons]
    obtain ⟨nodup, fresh⟩ := ih (TypeName.firstFree taken name :: taken)
    refine ⟨nodup.cons fun mem => fresh _ mem List.mem_cons_self,
      List.forall_mem_cons.mpr ⟨TypeName.firstFree_not_mem taken name, fun other mem => ?_⟩⟩
    exact fun given => fresh other mem (List.mem_cons_of_mem _ given)

/-- A name is given as it is or with a number. -/
def GivenFor (given name : String) : Prop := given = name ∨ ∃ k : Nat, given = name ++ toString k

theorem givenFor_firstFree (taken : List String) (name : String) :
    GivenFor (TypeName.firstFree taken name) name := by
  rw [TypeName.firstFree]
  split
  · exact .inr (TypeName.numbered_eq taken name taken.length 2)
  · exact .inl rfl

theorem distinctNames_givenFor (taken names : List String) :
    List.Forall₂ GivenFor (distinctNames taken names) names := by
  induction names generalizing taken with
  | nil => exact .nil
  | cons name names ih =>
    rw [distinctNames_cons]
    exact .cons (givenFor_firstFree taken name) (ih _)

end TypedArchive.Emit
