import TypedArchive.Compile.Unify
import TypedArchive.Proofs.Binding.RoundTrip

/-! The values that a type accepts, whatever they are read as. -/

namespace TypedArchive

/-- Whether a value is of a primitive's kind; integers are those of the signed 64-bit range. -/
def Primitive.holds : Primitive → Json → Bool
  | .any, _ => true
  | .string, .string _ => true
  | .integer, .number n => n.toInt64?.isSome
  | .number, .number _ => true
  | .boolean, .bool _ => true
  | .null, .null => true
  | _, _ => false

theorem Decode.primitive_holds {p : Primitive} {v : Json} :
    (∃ d, primitive p v [] = .ok d) ↔ p.holds v = true := by
  fun_cases primitive p v [] <;> simp_all [Primitive.holds, mismatch]

theorem Literal.ofJson?_eq_some {v : Json} {l : Literal} : ofJson? v = some l ↔ v = l.toJson := by
  constructor
  · exact fun h => (toJson_of_ofJson? h).symm
  · rintro rfl
    exact ofJson?_toJson l

theorem Literal.primitive_holds (l : Literal) : l.primitive.holds l.toJson = true := by
  cases l <;> simp [primitive, toJson, Primitive.holds, Json.ofInt64]

theorem Decode.literal_holds {l : Literal} {v : Json} :
    (∃ d, literal l v [] = .ok d) ↔ v = l.toJson := by
  rw [← Literal.ofJson?_eq_some]
  constructor
  · rintro ⟨d, h⟩
    rw [literal] at h
    split at h
    · next accepts => exact beq_iff_eq.mp accepts
    · cases h
  · intro h
    obtain ⟨d, hd⟩ := primitive_holds.mpr
      (Literal.ofJson?_eq_some.mp h ▸ Literal.primitive_holds l)
    refine ⟨d, ?_⟩
    rw [literal, Literal.accepts, if_pos (beq_iff_eq.mpr h)]
    exact hd

namespace Catalog

/-- A value reads as a type in some way. -/
def Accepts (c : Catalog) (t : TypeRef) (v : Json) : Prop := ∃ d, c.Reads t v d

variable {c : Catalog} {t : TypeRef} {v : Json}

theorem isOk_value_iff {path : FieldPath} :
    (Decode.value c v t path).isOk = true ↔ c.Accepts t v := by
  constructor
  · intro ok
    obtain ⟨d, read⟩ := Outcome.exists_of_isOk ok
    exact ⟨d, Decode.reads_of_value read⟩
  · rintro ⟨d, reads⟩
    rw [Decode.value_of_reads reads path]
    rfl

theorem accepts_primitive {p : Primitive} : c.Accepts (.primitive p) v ↔ p.holds v = true := by
  rw [← Decode.primitive_holds]
  constructor
  · rintro ⟨d, read⟩
    cases read with
    | primitive h => exact ⟨d, h⟩
  · rintro ⟨d, h⟩
    exact ⟨d, .primitive h⟩

theorem accepts_literal {l : Literal} : c.Accepts (.literal l) v ↔ v = l.toJson := by
  rw [← Decode.literal_holds]
  constructor
  · rintro ⟨d, read⟩
    cases read with
    | literal h => exact ⟨d, h⟩
  · rintro ⟨d, h⟩
    exact ⟨d, .literal h⟩

theorem accepts_array :
    c.Accepts (.array t) v ↔ ∃ items, v = .array items ∧ ∀ w ∈ items, c.Accepts t w := by
  constructor
  · rintro ⟨d, read⟩
    cases read with
    | @array t items ds length each =>
      refine ⟨items, rfl, fun w mem => ?_⟩
      obtain ⟨d, both⟩ := Outcome.exists_mem_zip length mem
      exact ⟨d, each _ both⟩
  · rintro ⟨items, rfl, each⟩
    obtain ⟨ds, all⟩ := Outcome.exists_forall₂ each
    exact ⟨.array ds, .array all.length_eq fun p mem => (List.forall₂_iff_zip.mp all).2 mem⟩

theorem accepts_map :
    c.Accepts (.map t) v ↔ ∃ members, v = .object members ∧ ∀ p ∈ members, c.Accepts t p.2 := by
  constructor
  · rintro ⟨d, read⟩
    cases read with
    | @map t members entries keys each =>
      refine ⟨members, rfl, fun p mem => ?_⟩
      obtain ⟨q, both⟩ := Outcome.exists_mem_zip (Outcome.length_of_map_eq keys) mem
      exact ⟨q.2, each _ both⟩
  · rintro ⟨members, rfl, each⟩
    have each (p) (mem : p ∈ members) : ∃ q : String × Data, p.1 = q.1 ∧ c.Reads t p.2 q.2 := by
      obtain ⟨d, read⟩ := each p mem
      exact ⟨(p.1, d), rfl, read⟩
    obtain ⟨entries, all⟩ := Outcome.exists_forall₂ each
    have both := List.forall₂_iff_zip.mp all
    refine ⟨.map entries, .map (Outcome.map_eq_map_iff.mpr ⟨both.1, fun p mem => ?_⟩)
      fun p mem => ?_⟩
    · exact (both.2 mem).1
    · exact (both.2 mem).2

variable {name : String} {e : Entry}

theorem accepts_record {declared : List Field} (entry : c.get? name = some e)
    (type : e.type = .record declared) :
    c.Accepts (.named name) v ↔ ∃ members, v = .object members ∧
      (∀ f ∈ declared, f.optional = false → Assoc.contains members f.name = true) ∧
      ∀ f ∈ declared, ∀ w, Assoc.get? members f.name = some w → c.Accepts f.type w := by
  constructor
  · rintro ⟨d, read⟩
    cases read with
    | @record _ e' declared' members read entry' type' required names each =>
      cases entry.symm.trans entry'
      cases type.symm.trans type'
      refine ⟨members, rfl, required, fun f mem w found => ?_⟩
      have present : f ∈ presentFields declared members :=
        List.mem_filter.mpr ⟨mem, Assoc.contains_iff_exists.mpr ⟨w, found⟩⟩
      obtain ⟨q, both⟩ := Outcome.exists_mem_zip (Outcome.length_of_map_eq names) present
      exact ⟨q.2, each _ both w found⟩
    | _ => simp_all
  · rintro ⟨members, rfl, required, each⟩
    have each (f) (mem : f ∈ presentFields declared members) : ∃ q : String × Data,
        f.name = q.1 ∧ ∀ w, Assoc.get? members f.name = some w → c.Reads f.type w q.2 := by
      obtain ⟨mem, has⟩ := List.mem_filter.mp mem
      obtain ⟨w, found⟩ := Assoc.contains_iff_exists.mp has
      obtain ⟨d, read⟩ := each f mem w found
      refine ⟨(f.name, d), rfl, fun w' found' => ?_⟩
      cases found.symm.trans found'
      exact read
    obtain ⟨read, all⟩ := Outcome.exists_forall₂ each
    have both := List.forall₂_iff_zip.mp all
    have names : (presentFields declared members).map Field.name = read.map Prod.fst :=
      Outcome.map_eq_map_iff.mpr ⟨both.1, fun p mem => (both.2 mem).1⟩
    exact ⟨_, .record entry type required names fun p mem => (both.2 mem).2⟩

theorem accepts_enumeration {values : List Literal} {descriptions : List String}
    (entry : c.get? name = some e) (type : e.type = .enumeration values descriptions) :
    c.Accepts (.named name) v ↔ ∃ l ∈ values, v = l.toJson := by
  constructor
  · rintro ⟨d, read⟩
    cases read with
    | enumeration entry' type' h =>
      cases entry.symm.trans entry'
      cases type.symm.trans type'
      obtain ⟨l, literal, mem, -⟩ := Decode.enumeration_ok.mp h
      exact ⟨l, mem, Literal.ofJson?_eq_some.mp literal⟩
    | _ => simp_all
  · rintro ⟨l, mem, rfl⟩
    exact ⟨_, .enumeration entry type
      (Decode.enumeration_ok.mpr ⟨l, Literal.ofJson?_toJson l, mem, rfl⟩)⟩

theorem accepts_arrayEntry (entry : c.get? name = some e) (type : e.type = .array t) :
    c.Accepts (.named name) v ↔ c.Accepts (.array t) v := by
  constructor
  · rintro ⟨d, read⟩
    cases read with
    | arrayEntry entry' type' h =>
      cases entry.symm.trans entry'
      cases type.symm.trans type'
      exact ⟨d, h⟩
    | _ => simp_all
  · rintro ⟨d, read⟩
    exact ⟨d, .arrayEntry entry type read⟩

theorem accepts_alias (entry : c.get? name = some e) (type : e.type = .alias t) :
    c.Accepts (.named name) v ↔ c.Accepts t v := by
  constructor
  · rintro ⟨d, read⟩
    cases read with
    | «alias» entry' type' h =>
      cases entry.symm.trans entry'
      cases type.symm.trans type'
      exact ⟨d, h⟩
    | _ => simp_all
  · rintro ⟨d, read⟩
    exact ⟨d, .alias entry type read⟩

theorem accepts_any : c.Accepts .any v := accepts_primitive.mpr rfl

end Catalog

/-- A literal beside a primitive that it narrows is of the primitive's kind. -/
theorem TypeRef.holds_of_narrows {l : Literal} {p : Primitive} (h : narrows l p = true) :
    p.holds l.toJson = true := by
  rw [narrows, Bool.or_eq_true, Bool.and_eq_true, beq_iff_eq, beq_iff_eq, beq_iff_eq] at h
  rcases h with rfl | ⟨rfl, integer⟩
  · exact l.primitive_holds
  · cases l with
    | integer i => rfl
    | _ => cases integer

theorem Primitive.number_of_integer {v : Json} (h : Primitive.integer.holds v = true) :
    Primitive.number.holds v = true := by
  cases v with
  | number n => rfl
  | _ => cases h

theorem TypeRef.accepts_literal_primitive {c : Catalog} {l : Literal} {p : Primitive} {v : Json}
    (h : narrows l p = true) :
    c.Accepts (.literal l) v ↔ c.Accepts (.literal l) v ∧ c.Accepts (.primitive p) v := by
  refine ⟨fun accepts => ⟨accepts, ?_⟩, And.left⟩
  rw [Catalog.accepts_literal] at accepts
  rw [Catalog.accepts_primitive, accepts]
  exact holds_of_narrows h

theorem TypeRef.accepts_integer_number {c : Catalog} {v : Json} :
    c.Accepts (.primitive .integer) v ↔
      c.Accepts (.primitive .integer) v ∧ c.Accepts (.primitive .number) v := by
  refine ⟨fun accepts => ⟨accepts, ?_⟩, And.left⟩
  rw [Catalog.accepts_primitive] at accepts ⊢
  exact Primitive.number_of_integer accepts

/-- A narrowed type accepts what both of its types accept. -/
theorem TypeRef.accepts_unify {c : Catalog} {a b t : TypeRef} (h : a.unify b = some t) (v : Json) :
    c.Accepts t v ↔ c.Accepts a v ∧ c.Accepts b v := by
  fun_induction TypeRef.unify a b generalizing t v with
  | case1 other =>
    cases h
    exact (and_iff_right Catalog.accepts_any).symm
  | case2 other =>
    cases h
    exact (and_iff_left Catalog.accepts_any).symm
  | case3 l p _ narrows =>
    cases h
    exact accepts_literal_primitive narrows
  | case5 p l _ narrows =>
    cases h
    rw [and_comm]
    exact accepts_literal_primitive narrows
  | case7 =>
    cases h
    rw [and_comm]
    exact accepts_integer_number
  | case8 =>
    cases h
    exact accepts_integer_number
  | case9 a b ih =>
    obtain ⟨element, unify, rfl⟩ := Option.map_eq_some_iff.mp h
    simp only [Catalog.accepts_array, ih unify]
    constructor
    · rintro ⟨items, rfl, each⟩
      exact ⟨⟨items, rfl, fun w mem => (each w mem).1⟩, ⟨items, rfl, fun w mem => (each w mem).2⟩⟩
    · rintro ⟨⟨items, rfl, left⟩, ⟨_, eq, right⟩⟩
      cases eq
      exact ⟨items, rfl, fun w mem => ⟨left w mem, right w mem⟩⟩
  | case10 a b ih =>
    obtain ⟨element, unify, rfl⟩ := Option.map_eq_some_iff.mp h
    simp only [Catalog.accepts_map, ih unify]
    constructor
    · rintro ⟨members, rfl, each⟩
      exact ⟨⟨members, rfl, fun p mem => (each p mem).1⟩,
        ⟨members, rfl, fun p mem => (each p mem).2⟩⟩
    · rintro ⟨⟨members, rfl, left⟩, ⟨_, eq, right⟩⟩
      cases eq
      exact ⟨members, rfl, fun p mem => ⟨left p mem, right p mem⟩⟩
  | case11 t' =>
    cases h
    exact (and_self_iff).symm
  | case4 | case6 | case12 => cases h

end TypedArchive
