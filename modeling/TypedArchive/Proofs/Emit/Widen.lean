import TypedArchive.Emit.Plan
import TypedArchive.Proofs.Binding.Accepts

/-! A catalog as its emitted types hold it: a literal that is not itself the type of a record's
field is held as its primitive, and is no longer told from other values of that kind. -/

namespace TypedArchive

/-- The expression with each literal widened to its primitive. -/
def TypeRef.widen : TypeRef → TypeRef
  | .named name => .named name
  | .primitive p => .primitive p
  | .literal l => .primitive l.primitive
  | .array t => .array t.widen
  | .map t => .map t.widen

/-- A field that is fixed to one literal stays so. -/
def Field.widen (f : Field) : Field :=
  match f.type with
  | .literal _ => f
  | t => { f with type := t.widen }

def Variant.widen (w : Variant) : Variant := { w with type := w.type.widen }

def TypeDef.widen : TypeDef → TypeDef
  | .record fields => .record (fields.map Field.widen)
  | .enumeration values descriptions => .enumeration values descriptions
  | .union discriminant variants => .union discriminant (variants.map Variant.widen)
  | .array t => .array t.widen
  | .alias t => .alias t.widen

def Entry.widen (e : Entry) : Entry := { e with type := e.type.widen }

/-- The catalog with each literal beyond the types of fields widened to its primitive. -/
def Catalog.widen (c : Catalog) : Catalog := ⟨c.entries.mapValues Entry.widen⟩

@[simp] theorem TypeRef.widen_widen (t : TypeRef) : t.widen.widen = t.widen := by
  induction t with
  | named | primitive | literal => rfl
  | array t ih => rw [widen, widen, ih]
  | map t ih => rw [widen, widen, ih]

@[simp] theorem TypeRef.namedRefs_widen (t : TypeRef) : t.widen.namedRefs = t.namedRefs := by
  have same : t.widen.namedRef? = t.namedRef? := by
    induction t with
    | named | primitive | literal => rfl
    | array t ih => exact ih
    | map t ih => exact ih
  rw [namedRefs, namedRefs, same]

theorem TypeRef.widen_ne_literal (t : TypeRef) (l : Literal) : t.widen ≠ .literal l := by
  cases t <;> exact TypeRef.noConfusion

@[simp] theorem EmittedType.ofRef_widen (t : TypeRef) : ofRef t.widen = ofRef t := by
  induction t with
  | named | primitive | literal => rfl
  | array t ih => rw [TypeRef.widen, ofRef, ih, ofRef]
  | map t ih => rw [TypeRef.widen, ofRef, ih, ofRef]

namespace Field

/-- A field is fixed to one literal and stays as it is, or its type is widened. -/
theorem widen_cases (f : Field) :
    (∃ l, f.type = .literal l ∧ f.widen = f) ∨
      (∀ l, f.type ≠ .literal l) ∧ f.widen = { f with type := f.type.widen } := by
  cases type : f.type with
  | literal l => exact Or.inl ⟨l, rfl, by rw [widen, type]⟩
  | _ => exact Or.inr ⟨fun _ => TypeRef.noConfusion, by rw [widen, type]⟩

@[simp] theorem name_widen (f : Field) : f.widen.name = f.name := by
  rcases f.widen_cases with ⟨_, _, eq⟩ | ⟨_, eq⟩ <;> rw [eq]

@[simp] theorem optional_widen (f : Field) : f.widen.optional = f.optional := by
  rcases f.widen_cases with ⟨_, _, eq⟩ | ⟨_, eq⟩ <;> rw [eq]

@[simp] theorem namedRefs_widen (f : Field) : f.widen.type.namedRefs = f.type.namedRefs := by
  rcases f.widen_cases with ⟨_, _, eq⟩ | ⟨_, eq⟩ <;> simp [eq]

@[simp] theorem widen_widen (f : Field) : f.widen.widen = f.widen := by
  rcases f.widen_cases with ⟨_, _, eq⟩ | ⟨_, eq⟩
  · rw [eq, eq]
  · rcases f.widen.widen_cases with ⟨l, type, -⟩ | ⟨-, again⟩
    · rw [eq] at type
      exact absurd type (f.type.widen_ne_literal l)
    · rw [again, eq, TypeRef.widen_widen]

end Field

@[simp] theorem TypeDef.namedRefs_widen (t : TypeDef) : t.widen.namedRefs = t.namedRefs := by
  cases t with
  | record fields => simp [widen, namedRefs, List.flatMap_map]
  | enumeration => rfl
  | «union» discriminant variants => simp [widen, namedRefs, List.flatMap_map, Variant.widen]
  | array t => exact t.namedRefs_widen
  | «alias» t => exact t.namedRefs_widen

@[simp] theorem TypeDef.widen_widen (t : TypeDef) : t.widen.widen = t.widen := by
  cases t <;> simp [widen, Variant.widen, Function.comp_def]

namespace Catalog

variable {c : Catalog}

@[simp] theorem widen_widen (c : Catalog) : c.widen.widen = c.widen := by
  simp [widen, Assoc.mapValues, Entry.widen, Function.comp_def]

theorem get?_widen (c : Catalog) (name : String) :
    c.widen.get? name = (c.get? name).map Entry.widen :=
  Assoc.get?_mapValues _ _ _

theorem mentions_widen (c : Catalog) : c.widen.mentions = c.mentions := by
  simp [mentions, widen, Assoc.mapValues, Entry.widen, List.flatMap_map]

theorem mentionsFrom_widen (target : String) (rounds : Nat) (stack seen : List String) :
    c.widen.mentionsFrom target rounds stack seen = c.mentionsFrom target rounds stack seen := by
  fun_induction mentionsFrom c target rounds stack seen with
  | case1 | case2 => simp only [mentionsFrom]
  | case3 rounds name stack seen visited ih =>
    rw [mentionsFrom, if_pos visited, ih]
  | case4 rounds name stack seen fresh missing ih =>
    rw [mentionsFrom, if_neg fresh]
    simp only [get?_widen, missing, Option.map_none, ih]
  | case5 rounds name stack seen fresh e entry next found =>
    rw [mentionsFrom, if_neg fresh]
    simp only [get?_widen, entry, Option.map_some, Entry.widen, TypeDef.namedRefs_widen]
    exact if_pos found
  | case6 rounds name stack seen fresh e entry next absent ih =>
    rw [mentionsFrom, if_neg fresh]
    simp only [get?_widen, entry, Option.map_some, Entry.widen, TypeDef.namedRefs_widen]
    rw [if_neg absent, ih]

/-- Literals lead nowhere, so the same types lead back to themselves. -/
theorem reaches_widen (c : Catalog) (source target : String) :
    c.widen.reaches source target = c.reaches source target := by
  rw [reaches, reaches, mentions_widen, mentionsFrom_widen]

theorem ofField_widen (c : Catalog) (owner : String) (t : TypeRef) :
    EmittedType.ofField c.widen owner t.widen = EmittedType.ofField c owner t := by
  cases t with
  | named name => simp only [TypeRef.widen, EmittedType.ofField, reaches_widen]
  | primitive | literal => rfl
  | array t => exact EmittedType.ofRef_widen (.array t)
  | map t => exact EmittedType.ofRef_widen (.map t)

theorem expected_of_literal (c : Catalog) (owner : String) {f : Field} {l : Literal}
    (type : f.type = .literal l) : (c.fieldRead owner f).expected = some l := by
  simp only [fieldRead, type]

theorem expected_of_free (c : Catalog) (owner : String) {f : Field}
    (free : ∀ l, f.type ≠ .literal l) : (c.fieldRead owner f).expected = none := by
  cases type : f.type with
  | literal l => exact absurd type (free l)
  | _ => simp only [fieldRead, type]

theorem fieldRead_widen (c : Catalog) (owner : String) (f : Field) :
    c.widen.fieldRead owner f.widen = c.fieldRead owner f := by
  rcases f.widen_cases with ⟨l, type, eq⟩ | ⟨free, eq⟩
  · simp only [fieldRead, eq, type]
    rfl
  · simp only [fieldRead, eq, ofField_widen]
    congr 1
    cases type : f.type with
    | literal l => exact absurd type (free l)
    | _ => rfl

theorem plan_widen (c : Catalog) (e : Entry) : c.widen.plan e.widen = c.plan e := by
  cases type : e.type with
  | record fields =>
    simp [plan, Entry.widen, type, TypeDef.widen, Function.comp_def, fieldRead_widen]
  | enumeration => simp only [plan, Entry.widen, type, TypeDef.widen]
  | «union» discriminant variants =>
    cases discriminant <;>
      simp [plan, Entry.widen, type, TypeDef.widen, Variant.widen, Function.comp_def]
  | array t => simp [plan, Entry.widen, type, TypeDef.widen]
  | «alias» t => simp [plan, Entry.widen, type, TypeDef.widen]

/-- The emitted types do not tell a catalog from the widened one. -/
theorem plans_widen (c : Catalog) : c.widen.plans = c.plans := by
  rw [plans, plans, widen, Assoc.mapValues, List.map_map]
  exact List.map_congr_left fun p _ => congrArg (Prod.mk p.1) (c.plan_widen p.2)

/-- A variant is chosen by its tag or its shape, which stay. -/
theorem selectVariant_widen (typeName : String) (discriminant : Option String)
    (variants : List Variant) (v : Json) (path : FieldPath) :
    Decode.selectVariant typeName discriminant (variants.map Variant.widen) v path =
      (fun r => (r.1, r.2.1.widen, r.2.2)) <$>
        Decode.selectVariant typeName discriminant variants v path := by
  cases discriminant with
  | none =>
    simp only [Decode.selectVariant, List.zipIdx_map, List.find?_map, Function.comp_def,
      Prod.map_fst, Variant.widen]
    cases variants.zipIdx.find? fun p => p.1.shape.accepts v <;> rfl
  | some name =>
    cases v with
    | object members =>
      simp only [Decode.selectVariant, variantForTag?, List.zipIdx_map, List.find?_map,
        Function.comp_def, Prod.map_fst, Variant.widen]
      cases members.lookup name with
      | none => rfl
      | some raw =>
        dsimp only
        cases Literal.ofJson? raw with
        | none => rfl
        | some tag =>
          dsimp only
          cases variants.zipIdx.find? fun p => p.1.tag == some tag <;> rfl
    | _ => rfl

theorem widen_entry {name : String} {e : Entry} (entry : c.get? name = some e) :
    c.widen.get? name = some e.widen := by
  rw [get?_widen, entry, Option.map_some]

/-- A field that a value reads as is widened to one that accepts the value. -/
theorem accepts_widen_field {f : Field} {w : Json} (read : c.Accepts f.type w)
    (widened : c.widen.Accepts f.type.widen w) : c.widen.Accepts f.widen.type w := by
  rcases f.widen_cases with ⟨l, type, eq⟩ | ⟨-, eq⟩
  · rw [type, accepts_literal] at read
    rw [eq, type, accepts_literal]
    exact read
  · rw [eq]
    exact widened

/-- What a catalog accepts, the widened one accepts. -/
theorem Accepts.widen {t : TypeRef} {v : Json} (h : c.Accepts t v) :
    c.widen.Accepts t.widen v := by
  obtain ⟨d, read⟩ := h
  induction read with
  | primitive h => exact ⟨_, .primitive h⟩
  | @literal l v d h =>
    rw [TypeRef.widen, accepts_primitive, Decode.literal_holds.mp ⟨d, h⟩]
    exact l.primitive_holds
  | @array t items ds length each ih =>
    refine accepts_array.mpr ⟨items, rfl, fun w mem => ?_⟩
    obtain ⟨d, pair⟩ := Outcome.exists_mem_zip length mem
    exact ih _ pair
  | @map t members entries keys each ih =>
    refine accepts_map.mpr ⟨members, rfl, fun p mem => ?_⟩
    obtain ⟨q, pair⟩ := Outcome.exists_mem_zip (Outcome.length_of_map_eq keys) mem
    exact ih _ pair
  | @record name e declared members read entry type required names each ih =>
    have type : e.widen.type = .record (declared.map Field.widen) := by
      rw [Entry.widen, type, TypeDef.widen]
    refine (accepts_record (widen_entry entry) type).mpr ⟨members, rfl, ?_, ?_⟩
    · rw [List.forall_mem_map]
      simpa using required
    · rw [List.forall_mem_map]
      intro f mem w found
      rw [Field.name_widen] at found
      have present : f ∈ presentFields declared members :=
        List.mem_filter.mpr ⟨mem, Assoc.contains_iff_exists.mpr ⟨w, found⟩⟩
      obtain ⟨q, pair⟩ := Outcome.exists_mem_zip (Outcome.length_of_map_eq names) present
      exact accepts_widen_field ⟨q.2, each _ pair w found⟩ (ih _ pair w found)
  | enumeration entry type h =>
    exact ⟨_, .enumeration (widen_entry entry) (by rw [Entry.widen, type, TypeDef.widen]) h⟩
  | arrayEntry entry type h ih =>
    exact (accepts_arrayEntry (widen_entry entry) (by rw [Entry.widen, type, TypeDef.widen])).mpr ih
  | «alias» entry type h ih =>
    exact (accepts_alias (widen_entry entry) (by rw [Entry.widen, type, TypeDef.widen])).mpr ih
  | «union» entry type select h ih =>
    obtain ⟨d, read⟩ := ih
    have select := (selectVariant_widen _ _ _ _ _).trans (congrArg _ select)
    exact ⟨_, .union (widen_entry entry) (by rw [Entry.widen, type, TypeDef.widen]) select read⟩

end Catalog

end TypedArchive
