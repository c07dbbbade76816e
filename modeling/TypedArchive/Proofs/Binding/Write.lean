import TypedArchive.Binding.Write
import TypedArchive.Proofs.Binding.RoundTrip
import TypedArchive.Proofs.Rounds

/-! When encoding ends: exactly when no type hands a value on to itself, over aliases and as the
variant that a bare record or enum counts as. Then it gives what encoding within a bound on names
gives. -/

namespace TypedArchive

namespace Data

theorem depth_item {d : Data} {items : List Data} (h : d ∈ items) :
    d.depth < (array items).depth := by
  rw [depth]
  induction items with
  | nil => cases h
  | cons w rest ih =>
    rw [itemsDepth]
    rcases List.mem_cons.mp h with rfl | mem
    · omega
    · have := ih mem
      omega

theorem depth_entry {p : String × Data} {entries : List (String × Data)} (h : p ∈ entries) :
    p.2.depth < entriesDepth entries + 1 := by
  induction entries with
  | nil => cases h
  | cons q rest ih =>
    obtain ⟨k, w⟩ := q
    rw [entriesDepth]
    rcases List.mem_cons.mp h with rfl | mem
    · change w.depth < _
      omega
    · have := ih mem
      omega

end Data

namespace Encode

open Steps

section Select

variable {c : Catalog} {variants : List Variant} {d : Data} {path : FieldPath} {typeName : String}

theorem selectVariant_union (n : String) (g : Option Literal) (index : Nat) (payload : Data) :
    selectVariant c typeName variants (.union n g index payload) path =
      match variants[index]? with
      | some variant => .ok (variant, payload)
      | none => fail path (.variant typeName index) := rfl

theorem selectVariant_bare (bare : ∀ n g i p, d ≠ .union n g i p) :
    selectVariant c typeName variants d path =
      match d.typeName?.bind (variantNamed? c variants) with
      | none => wrongKind typeName d path
      | some index =>
        match variants[index]? with
        | some variant => .ok (variant, d)
        | none => fail path (.variant typeName index) := by
  cases d with
  | «union» n g i p => exact absurd rfl (bare n g i p)
  | _ =>
    simp only [selectVariant]
    generalize Option.bind _ _ = selected
    cases selected <;> rfl

/-- What is written as a variant is the value in a union, or the whole value, which is handed on to
the variant's type. -/
theorem selectVariant_ok {name : String} {e : Entry} {discriminant : Option String}
    {inner : Data} {variant : Variant} (entry : c.get? name = some e)
    (type : e.type = .union discriminant variants)
    (h : selectVariant c e.name variants d path = .ok (variant, inner)) :
    (∃ n g i, d = .union n g i inner) ∨
      inner = d ∧ hop c d (.named name) = some variant.type := by
  by_cases bare : ∀ n g i p, d ≠ .union n g i p
  · rw [selectVariant_bare bare] at h
    rw [hop_union entry type bare, bareVariant?]
    split at h
    · cases h
    · next index selected =>
      split at h
      · next found =>
        cases h
        rw [selected, Option.bind_some, found]
        exact .inr ⟨rfl, rfl⟩
      · cases h
  · push Not at bare
    obtain ⟨n, g, i, payload, rfl⟩ := bare
    rw [selectVariant_union] at h
    split at h
    · cases h
      exact .inl ⟨n, g, i, rfl⟩
    · cases h

/-- A value that is handed on is written as the variant that it is handed on to. -/
theorem selectVariant_of_hop {name : String} {e : Entry} {discriminant : Option String}
    {t : TypeRef} (entry : c.get? name = some e) (type : e.type = .union discriminant variants)
    (next : hop c d (.named name) = some t) (path : FieldPath) :
    ∃ variant, variant.type = t ∧ selectVariant c e.name variants d path = .ok (variant, d) := by
  by_cases bare : ∀ n g i p, d ≠ .union n g i p
  · rw [hop_union entry type bare, Option.map_eq_some_iff] at next
    obtain ⟨variant, found, type⟩ := next
    obtain ⟨index, selected, found⟩ := Option.bind_eq_some_iff.mp found
    refine ⟨variant, type, ?_⟩
    simp only [selectVariant_bare bare, selected, found]
  · push Not at bare
    obtain ⟨n, g, i, payload, rfl⟩ := bare
    simp [hop, entry, type] at next

/-- A union is written as the type of a variant, either the value in it or the whole value. -/
theorem typeRef_select {name : String} {e : Entry} {discriminant : Option String} {steps : Nat}
    (entry : c.get? name = some e) (type : e.type = .union discriminant variants) :
    typeRef c d (parts c d) (steps + 1) (.named name) path =
      selectVariant c e.name variants d path >>= fun selected =>
        match d with
        | .union _ _ _ payload => value c payload selected.1.type path
        | d => typeRef c d (parts c d) steps selected.1.type path := by
  rw [typeRef]
  simp only [entry, type]
  by_cases bare : ∀ n g i p, d ≠ .union n g i p
  · rw [selectVariant_bare bare]
    cases d with
    | «union» n g i p => exact absurd rfl (bare n g i p)
    | _ =>
      dsimp only
      generalize Option.bind _ _ = selected
      cases selected with
      | none => rfl
      | some index =>
        dsimp only
        cases variants[index]? <;> rfl
  · push Not at bare
    obtain ⟨n, g, i, payload, rfl⟩ := bare
    rw [selectVariant_union]
    simp only [parts]
    cases variants[i]? <;> rfl

end Select

section Round

variable {c : Catalog} {d : Data} {t : TypeRef} {path : FieldPath}
  {write write' : TypeRef → Data → FieldPath → Writing Json}

section Below

variable (parts : ∀ w : Data, w.depth < d.depth → ∀ t path,
  Below (write t w path) (write' t w path))

include parts

theorem roundArray_below (t : TypeRef) :
    Below (roundArray write t d path) (roundArray write' t d path) := by
  cases d with
  | array items =>
    refine Below.bind (Below.mapM fun p mem => ?_) fun vs => .refl _
    exact parts p.1 (Data.depth_item
      (List.mem_of_getElem? (List.mem_zipIdx_iff_getElem?.mp mem))) t _
  | _ => exact .refl _

theorem roundMap_below (t : TypeRef) :
    Below (roundMap write t d path) (roundMap write' t d path) := by
  cases d with
  | map entries =>
    refine Below.bind (Below.mapM fun p mem => ?_) fun members => .refl _
    exact (parts p.2 (Data.depth_entry mem) t _).bind fun v => .refl _
  | _ => exact .refl _

theorem roundRecord_below (typeName : String) (declared : List Field) :
    Below (roundRecord write typeName declared d path)
      (roundRecord write' typeName declared d path) := by
  cases d with
  | record name present extra =>
    rw [roundRecord, roundRecord]
    split
    · exact .refl _
    · split
      · exact .refl _
      · refine Below.bind (Below.foldlM fun f mem written => ?_) fun members => .refl _
        rw [roundField, roundField]
        cases found : Assoc.get? present f.name with
        | some w =>
          have less := Data.depth_entry (Assoc.mem_of_get? found)
          exact (parts w less f.type _).bind fun v => .refl _
        | none => exact .refl _
  | _ => exact .refl _

/-- A round asks for parts of the value, and for the type that the value is handed on to. -/
theorem round_below
    (next : ∀ t', hop c d t = some t' → Below (write t' d path) (write' t' d path)) :
    Below (round write c t d path) (round write' c t d path) := by
  cases t with
  | primitive | literal => exact .refl _
  | array t => exact roundArray_below parts t
  | map t => exact roundMap_below parts t
  | named name =>
    cases entry : c.get? name with
    | none =>
      simp only [round, entry]
      exact .refl _
    | some e =>
      simp only [round, entry]
      cases type : e.type with
      | record declared => exact roundRecord_below parts e.name declared
      | enumeration values descriptions => exact .refl _
      | array t => exact roundArray_below parts t
      | «alias» t => exact next t (by simp only [hop, entry, type])
      | «union» discriminant variants =>
        refine Below.some_bind fun selected select => ?_
        rcases selectVariant_ok entry type select with ⟨n, g, i, rfl⟩ | ⟨same, handed⟩
        · exact parts selected.2 (Nat.lt_succ_self _) _ _
        · rw [same]
          exact next selected.1.type handed

end Below

/-- A round comes to something only if the type that the value is handed on to does. -/
theorem exists_of_round {r : Except EncodeError Json} (h : round write c t d path = some r)
    {t' : TypeRef} (next : hop c d t = some t') : ∃ r', write t' d path = some r' := by
  cases t with
  | named name =>
    cases entry : c.get? name with
    | none => simp [hop, entry] at next
    | some e =>
      simp only [round, entry] at h
      cases type : e.type with
      | «alias» t =>
        simp only [hop, entry, type, Option.some.injEq] at next
        rw [type] at h
        exact next ▸ ⟨r, h⟩
      | «union» discriminant variants =>
        simp only [type] at h
        obtain ⟨variant, rfl, select⟩ := selectVariant_of_hop entry type next path
        rw [select] at h
        exact ⟨r, h⟩
      | _ => simp [hop, entry, type] at next
  | _ => cases next

section Ended

variable (inner : ∀ w : Data, w.depth < d.depth → ∀ t path,
  write t w path = ended (value c w t path))

include inner

theorem roundArray_eq (t : TypeRef) :
    roundArray write t d path = ended (array d (parts c d).items t path) := by
  cases d with
  | array items =>
    have each := mapM_some (f := fun p => write t p.1 (path.pushIndex p.2))
      (k := fun p => value c p.1 t (path.pushIndex p.2)) fun p (mem : p ∈ items.zipIdx) =>
        inner p.1 (Data.depth_item (List.mem_of_getElem? (List.mem_zipIdx_iff_getElem?.mp mem))) _ _
    simp only [array, parts, itemEncoders_eq, List.zipIdx_map, List.mapM_map]
    refine (congrArg (· >>= _) each).trans ?_
    exact some_bind fun vs _ => rfl
  | _ => rfl

theorem roundMap_eq (t : TypeRef) :
    roundMap write t d path = ended (map d (parts c d).entries t path) := by
  cases d with
  | map entries =>
    have each := mapM_some (f := fun p => do return (p.1, ← write t p.2 (path.pushKey p.1)))
      (k := fun p => do return (p.1, ← value c p.2 t (path.pushKey p.1)))
      fun p (mem : p ∈ entries) => by
        rw [inner p.2 (Data.depth_entry mem)]
        exact some_bind fun v _ => rfl
    simp only [map, parts, entryEncoders_eq, List.mapM_map]
    refine (congrArg (· >>= _) each).trans ?_
    exact some_bind fun members _ => rfl
  | _ => rfl

theorem roundRecord_eq (typeName : String) (declared : List Field) :
    roundRecord write typeName declared d path =
      ended (record typeName declared d (parts c d).entries path) := by
  cases d with
  | record name present extra =>
    rw [roundRecord, record]
    split
    · rfl
    · cases known : present.find? fun p => !declared.any fun f => f.name == p.1 with
      | some p => rfl
      | none =>
        have each : declared.foldlM (roundField write present path) extra =
            ended (fields (entryEncoders c present) declared path extra) := by
          refine foldlM_some fun f _ written => ?_
          simp only [roundField, get?_entryEncoders]
          cases found : Assoc.get? present f.name with
          | some w =>
            simp only [Option.map_some]
            rw [inner w (Data.depth_entry (Assoc.mem_of_get? found))]
            exact some_bind fun v _ => rfl
          | none => rfl
        refine (congrArg (· >>= _) each).trans ?_
        exact some_bind fun members _ => rfl
  | _ => rfl

/-- A round is one step of encoding within a bound on names. -/
theorem round_eq {steps : Nat} (next : ∀ t', hop c d t = some t' →
      write t' d path = ended (typeRef c d (parts c d) steps t' path)) :
    round write c t d path = ended (typeRef c d (parts c d) (steps + 1) t path) := by
  cases t with
  | primitive | literal => rfl
  | array t => exact roundArray_eq inner t
  | map t => exact roundMap_eq inner t
  | named name =>
    cases entry : c.get? name with
    | none => simp only [round, typeRef, entry]
    | some e =>
      cases type : e.type with
      | record declared =>
        simp only [round, typeRef, entry, type]
        exact roundRecord_eq inner e.name declared
      | enumeration values descriptions => simp only [round, typeRef, entry, type]
      | array t =>
        simp only [round, typeRef, entry, type]
        exact roundArray_eq inner t
      | «alias» t =>
        simp only [round, typeRef, entry, type]
        exact next t (by simp only [hop, entry, type])
      | «union» discriminant variants =>
        simp only [round, entry, type]
        rw [typeRef_select entry type]
        refine some_bind fun selected select => ?_
        rcases selectVariant_ok entry type select with ⟨n, g, i, rfl⟩ | ⟨same, handed⟩
        · exact inner selected.2 (Nat.lt_succ_self _) selected.1.type path
        · rw [same, next selected.1.type handed]
          cases d with
          | «union» n g i payload => simp [hop, entry, type] at handed
          | _ => rfl

end Ended

end Round

/-- Encoding in rounds, and within a bound on names. -/
def rounds (c : Catalog) : Rounds TypeRef Data FieldPath EncodeError Json where
  depth := Data.depth
  hop := hop c
  places := c.entries.keys.map TypeRef.named
  round write := round write c
  within steps t d path := typeRef c d (parts c d) steps t path
  value t d path := value c d t path
  covers _ _ _ := hop_covered
  below := round_below
  asks h _ := exists_of_round h
  step inner next := round_eq inner next
  whole t d path := by rw [value_eq, List.length_map, Assoc.keys, List.length_map, Catalog.size]

theorem rounds_run (c : Catalog) (n : Nat) : (rounds c).run n = run c n := by
  induction n with
  | zero => rfl
  | succ n ih =>
    funext t d path
    rw [Rounds.run, ih]
    rfl

theorem rounds_bound (c : Catalog) (d : Data) :
    (rounds c).bound d = (c.size + 1) * (d.depth + 1) := by
  simp only [Rounds.bound, rounds, Assoc.keys, List.length_map, Catalog.size]

end Encode

open Encode

namespace Catalog

variable {c : Catalog}

theorem write_eq_rounds (c : Catalog) (name : String) (d : Data) :
    c.write name d = (rounds c).run ((rounds c).bound d) (.named name) d [] := by
  rw [write, rounds_run, rounds_bound]

/-- The bound on rounds cuts no writing short. -/
theorem write_eq_some_iff {name : String} {d : Data} {r : Except EncodeError Json} :
    c.write name d = some r ↔ ∃ rounds, Encode.run c rounds (.named name) d [] = some r := by
  refine ⟨fun h => ⟨_, h⟩, fun ⟨n, h⟩ => ?_⟩
  rw [← rounds_run] at h
  rw [write_eq_rounds]
  exact Rounds.run_bounded h (Nat.le_refl _)

/-- What writing ends with is what it ends with within a bound on names. -/
theorem encode_of_write {name : String} {d : Data} {r : Except EncodeError Json}
    (h : c.write name d = some r) : c.encode name d = r := by
  rw [write_eq_rounds] at h
  exact Rounds.value_of_run h

/-- Where no type hands a value on to itself, encoding ends, with the same result as within a bound
on names. -/
theorem write_eq_encode
    (circles : ∀ d t, ¬Relation.TransGen (Chain.Step (Encode.hop c d)) t t) (name : String)
    (d : Data) : c.write name d = some (c.encode name d) := by
  rw [write_eq_rounds]
  exact Rounds.run_eq_value (R := rounds c) circles (Nat.le_refl _)

/-- Encoding always ends exactly if no type hands a value on to itself. -/
theorem write_isSome_iff : (∀ name d, (c.write name d).isSome = true) ↔
    ∀ d t, ¬Relation.TransGen (Chain.Step (Encode.hop c d)) t t := by
  simp only [write_eq_rounds, Option.isSome_iff_exists]
  refine Rounds.ends_iff (R := rounds c) (fun d t t' next => ?_) []
  cases t with
  | named name => exact ⟨name, rfl⟩
  | _ => cases next

end Catalog

end TypedArchive
