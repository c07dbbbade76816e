import TypedArchive.Compile.Build
import TypedArchive.Proofs.Binding.Accepts

/-! Narrowing. The meet of two types is below both, so a type that was merged into a field once is
absorbed from then on, however the field is narrowed later. -/

namespace TypedArchive

namespace TypeRef

/-- The first type is the second one, narrowed. -/
inductive Below : TypeRef → TypeRef → Prop
  | refl (t : TypeRef) : Below t t
  | any (t : TypeRef) : Below t .any
  | literal {l : Literal} {p : Primitive} (among : narrows l p = true) :
      Below (.literal l) (.primitive p)
  | integer : Below (.primitive .integer) (.primitive .number)
  | array {a b : TypeRef} (h : Below a b) : Below (.array a) (.array b)
  | map {a b : TypeRef} (h : Below a b) : Below (.map a) (.map b)

theorem narrows_number {l : Literal} (h : narrows l .integer = true) :
    narrows l .number = true := by
  have integer : l.primitive = .integer := by simpa [narrows] using h
  simp [narrows, integer]

theorem Below.trans {a b c : TypeRef} (h : Below a b) (h' : Below b c) : Below a c := by
  induction h generalizing c with
  | refl t => exact h'
  | any t =>
    cases h' with
    | refl | any => exact .any t
  | literal among =>
    cases h' with
    | refl => exact .literal among
    | any => exact .any _
    | integer => exact .literal (narrows_number among)
  | integer =>
    cases h' with
    | refl => exact .integer
    | any => exact .any _
  | array h ih =>
    cases h' with
    | refl => exact .array h
    | any => exact .any _
    | array h' => exact .array (ih h')
  | map h ih =>
    cases h' with
    | refl => exact .map h
    | any => exact .any _
    | map h' => exact .map (ih h')

/-- The meet of two types is below both. -/
theorem below_of_unify {a b t : TypeRef} (h : a.unify b = some t) : Below t a ∧ Below t b := by
  fun_induction unify a b generalizing t with
  | case1 other =>
    cases h
    exact ⟨.any _, .refl _⟩
  | case2 other =>
    cases h
    exact ⟨.refl _, .any _⟩
  | case3 l p _ among =>
    cases h
    exact ⟨.refl _, .literal among⟩
  | case4 => cases h
  | case5 p l _ among =>
    cases h
    exact ⟨.literal among, .refl _⟩
  | case6 => cases h
  | case7 =>
    cases h
    exact ⟨.integer, .refl _⟩
  | case8 =>
    cases h
    exact ⟨.refl _, .integer⟩
  | case9 a b ih =>
    obtain ⟨element, unify, rfl⟩ := Option.map_eq_some_iff.mp h
    exact ⟨.array (ih unify).1, .array (ih unify).2⟩
  | case10 a b ih =>
    obtain ⟨value, unify, rfl⟩ := Option.map_eq_some_iff.mp h
    exact ⟨.map (ih unify).1, .map (ih unify).2⟩
  | case11 a =>
    cases h
    exact ⟨.refl _, .refl _⟩
  | case12 => cases h

theorem unify_self (t : TypeRef) : t.unify t = some t := by
  induction t with
  | primitive p => cases p <;> rfl
  | array t ih => rw [unify, ih, Option.map_some]
  | map t ih => rw [unify, ih, Option.map_some]
  | named name => simp [unify]
  | literal l => simp [unify]

/-- The meet with a type that is above is the type itself. -/
theorem unify_of_below {a b : TypeRef} (h : Below a b) : a.unify b = some a := by
  induction h with
  | refl t => exact unify_self t
  | any t =>
    cases t with
    | primitive p => cases p <;> rfl
    | _ => rfl
  | @literal l p among =>
    cases p with
    | any => rfl
    | _ => exact if_pos among
  | integer => rfl
  | array _ ih => rw [unify, ih, Option.map_some]
  | map _ ih => rw [unify, ih, Option.map_some]

end TypeRef

namespace Compile

/-- A field after further merging: narrowed at most, and with the description that it had. -/
structure FieldNarrows (f f' : Field) : Prop where
  name : f'.name = f.name
  type : f'.type.Below f.type
  description : ∀ text, f.description = some text → f'.description = some text

namespace Merged

/-- What further merging may do: fields are narrowed and added, and more keys are required. -/
structure Narrows (m m' : Merged) : Prop where
  fields : ∀ key f, m.fields.get? key = some f →
    ∃ f', m'.fields.get? key = some f' ∧ FieldNarrows f f'
  required : m.required ⊆ m'.required

theorem Narrows.refl (m : Merged) : Narrows m m where
  fields _ f found := ⟨f, found, rfl, .refl _, fun _ text => text⟩
  required := List.Subset.refl _

theorem Narrows.trans {m m₁ m' : Merged} (h : Narrows m m₁) (h' : Narrows m₁ m') :
    Narrows m m' where
  fields key f found := by
    obtain ⟨f₁, found₁, first⟩ := h.fields key f found
    obtain ⟨f', found', next⟩ := h'.fields key f₁ found₁
    exact ⟨f', found', next.name.trans first.name, next.type.trans first.type,
      fun text eq => next.description text (first.description text eq)⟩
  required := List.Subset.trans h.required h'.required

theorem Narrows.require (m : Merged) (keys : List String) :
    Narrows m { m with required := m.required ++ keys } where
  fields := (Narrows.refl m).fields
  required := List.subset_append_left _ _

/-- The fields are the same, and the same keys are required. -/
structure Same (m m' : Merged) : Prop where
  fields : ∀ key, m'.fields.get? key = m.fields.get? key
  required : ∀ key, key ∈ m'.required ↔ key ∈ m.required

theorem Same.refl (m : Merged) : Same m m := ⟨fun _ => rfl, fun _ => Iff.rfl⟩

theorem Same.trans {m m₁ m' : Merged} (h : Same m m₁) (h' : Same m₁ m') : Same m m' :=
  ⟨fun key => (h'.fields key).trans (h.fields key),
    fun key => (h'.required key).trans (h.required key)⟩

theorem Same.narrows {m m' : Merged} (h : Same m m') : Narrows m m' where
  fields key f found := ⟨f, (h.fields key).trans found, rfl, .refl _, fun _ text => text⟩
  required key mem := (h.required key).mpr mem

theorem Same.require {m : Merged} {keys : List String} (known : keys ⊆ m.required) :
    Same m { m with required := m.required ++ keys } where
  fields _ := rfl
  required key := by
    rw [List.mem_append]
    exact or_iff_left_of_imp fun mem => known mem

/-- A type and a description would add nothing to the field of a name. -/
def Absorbs (m : Merged) (name : String) (type : TypeRef) (description : Option String) : Prop :=
  ∃ f, m.fields.get? name = some f ∧ f.type.Below type ∧
    (f.description <|> description) = f.description

theorem Absorbs.mono {m m' : Merged} {name : String} {type : TypeRef}
    {description : Option String} (h : m.Absorbs name type description) (narrows : m.Narrows m') :
    m'.Absorbs name type description := by
  obtain ⟨f, found, below, described⟩ := h
  obtain ⟨f', found', -, type', kept⟩ := narrows.fields name f found
  refine ⟨f', found', type'.trans below, ?_⟩
  cases text : f.description with
  | none =>
    rw [text] at described
    obtain rfl : description = none := by simpa using described
    cases f'.description <;> rfl
  | some text' =>
    rw [kept text' text]
    rfl

/-- What was added is absorbed from then on. -/
theorem add_absorbs {m m' : Merged} {root name : String} {type : TypeRef}
    {description : Option String} (h : m.add root name type description = .ok m') :
    m.Narrows m' ∧ m'.Absorbs name type description := by
  -- Other fields are kept when one is put.
  have put {f : Field} (own : ∀ old, m.fields.get? name = some old → FieldNarrows old f) :
      m.Narrows { m with fields := m.fields.insert name f } := by
    refine ⟨fun key old found => ?_, List.Subset.refl _⟩
    rw [Assoc.get?_insert]
    split
    · next eq => exact ⟨f, rfl, own old (eq ▸ found)⟩
    · exact ⟨old, found, rfl, .refl _, fun _ text => text⟩
  rw [add] at h
  split at h
  · next absent =>
    cases h
    refine ⟨put fun old found => ?_, _, Assoc.get?_insert_self _ _ _, .refl _, ?_⟩
    · rw [absent] at found
      cases found
    · cases description <;> rfl
  · next old found =>
    split at h
    · next narrowed unify =>
      cases h
      obtain ⟨left, right⟩ := TypeRef.below_of_unify unify
      refine ⟨put fun old' found' => ?_, _, Assoc.get?_insert_self _ _ _, right, ?_⟩
      · cases found.symm.trans found'
        refine ⟨rfl, left, fun text eq => ?_⟩
        simp [eq]
      · cases old.description <;> cases description <;> rfl
    · cases h

/-- Adding what is absorbed succeeds and changes nothing. -/
theorem add_of_absorbs {m : Merged} (root : String) {name : String} {type : TypeRef}
    {description : Option String} (h : m.Absorbs name type description) :
    ∃ m', m.add root name type description = .ok m' ∧ m.Same m' := by
  obtain ⟨f, found, below, described⟩ := h
  rw [add, found]
  simp only [TypeRef.unify_of_below below, described]
  refine ⟨_, rfl, fun key => ?_, fun _ => Iff.rfl⟩
  rw [Assoc.get?_insert]
  split
  · next eq => rw [eq, found]
  · rfl

end Merged

end Compile

end TypedArchive
