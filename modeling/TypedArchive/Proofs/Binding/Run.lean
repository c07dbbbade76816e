import TypedArchive.Binding.Run
import TypedArchive.Proofs.Binding.Reads
import TypedArchive.Proofs.Rounds

/-! When decoding ends: exactly when no type hands a value on, over other types, to itself. Then it
gives what decoding within a bound on names gives. -/

namespace TypedArchive

/-- A type hands a whole value on to another one. -/
def Catalog.HandsOn (c : Catalog) (v : Json) : TypeRef → TypeRef → Prop :=
  Chain.Step (Decode.hop c v)

namespace Json

theorem depth_item {v : Json} {items : List Json} (h : v ∈ items) :
    v.depth < (array items).depth := by
  rw [depth]
  induction items with
  | nil => cases h
  | cons w rest ih =>
    rw [itemsDepth]
    rcases List.mem_cons.mp h with rfl | mem
    · omega
    · have := ih mem
      omega

theorem depth_member {p : String × Json} {members : List (String × Json)} (h : p ∈ members) :
    p.2.depth < (object members).depth := by
  rw [depth]
  induction members with
  | nil => cases h
  | cons q rest ih =>
    obtain ⟨k, w⟩ := q
    rw [membersDepth]
    rcases List.mem_cons.mp h with rfl | mem
    · change w.depth < _
      omega
    · have := ih mem
      omega

theorem depth_get? {v : Json} {key : String} {members : List (String × Json)}
    (h : Assoc.get? members key = some v) : v.depth < (object members).depth :=
  depth_member (Assoc.mem_of_get? h)

end Json

namespace Decode

open Steps

section Round

variable {c : Catalog} {v : Json} {t : TypeRef} {path : FieldPath}
  {read read' : TypeRef → Json → FieldPath → Reading Data}

section Below

variable (parts : ∀ w : Json, w.depth < v.depth → ∀ t path, Below (read t w path) (read' t w path))

include parts

theorem roundArray_below (t : TypeRef) :
    Below (roundArray read t v path) (roundArray read' t v path) := by
  cases v with
  | array items =>
    refine Below.bind (Below.mapM fun p mem => ?_) fun ds => .refl _
    exact parts p.1 (Json.depth_item
      (List.mem_of_getElem? (List.mem_zipIdx_iff_getElem?.mp mem))) t _
  | _ => exact .refl _

theorem roundMap_below (t : TypeRef) : Below (roundMap read t v path) (roundMap read' t v path) := by
  cases v with
  | object members =>
    refine Below.bind (Below.mapM fun p mem => ?_) fun entries => .refl _
    exact (parts p.2 (Json.depth_member mem) t _).bind fun d => .refl _
  | _ => exact .refl _

theorem roundRecord_below (typeName : String) (declared : List Field) :
    Below (roundRecord read typeName declared v path)
      (roundRecord read' typeName declared v path) := by
  cases v with
  | object members =>
    refine Below.bind (Below.foldlM fun f mem ds => ?_) fun ds => .refl _
    rw [roundField, roundField]
    cases found : Assoc.get? members f.name with
    | some w => exact (parts w (Json.depth_get? found) f.type _).bind fun d => .refl _
    | none => exact .refl _
  | _ => exact .refl _

/-- A round asks for parts of the value, and for the type that the value is handed on to. -/
theorem round_below
    (next : ∀ t', hop c v t = some t' → Below (read t' v path) (read' t' v path)) :
    Below (round read c t v path) (round read' c t v path) := by
  cases t with
  | primitive | literal => exact .refl _
  | array t => exact roundArray_below parts t
  | map t => exact roundMap_below parts t
  | named name =>
    cases entry : c.get? name with
    | none =>
      simp only [round, entry]
      exact .refl _
    | some e =>
      simp only [hop, entry] at next
      simp only [round, entry]
      cases type : e.type with
      | record declared => exact roundRecord_below parts e.name declared
      | enumeration values descriptions => exact .refl _
      | array t => exact roundArray_below parts t
      | «alias» t =>
        rw [type] at next
        exact next t rfl
      | «union» discriminant variants =>
        refine Below.some_bind fun selected select => ?_
        simp only [type, selectVariant_ok select []] at next
        exact (next selected.2.1.type rfl).bind fun d => .refl _

end Below

/-- A round comes to something only if the type that the value is handed on to does. -/
theorem exists_of_round {r : Except DecodeError Data} (h : round read c t v path = some r)
    {t' : TypeRef} (next : hop c v t = some t') : ∃ r', read t' v path = some r' := by
  cases t with
  | named name =>
    cases entry : c.get? name with
    | none => simp [hop, entry] at next
    | some e =>
      simp only [round, entry] at h
      cases type : e.type with
      | «alias» t =>
        simp only [hop, entry, type, Option.some.injEq] at next
        rw [type] at h
        exact next ▸ ⟨r, h⟩
      | «union» discriminant variants =>
        simp only [type] at h
        cases select : selectVariant e.name discriminant variants v [] with
        | error f => simp [hop, entry, type, select] at next
        | ok selected =>
          simp only [hop, entry, type, select, Option.some.injEq] at next
          rw [selectVariant_ok select path] at h
          exact next ▸ exists_of_bind (x := read selected.2.1.type v path) h
      | _ => simp [hop, entry, type] at next
  | _ => cases next

section Ended

variable (inner : ∀ w : Json, w.depth < v.depth → ∀ t path,
  read t w path = ended (value c w t path))

include inner

theorem roundArray_eq (t : TypeRef) :
    roundArray read t v path = ended (array v (parts c v).items t path) := by
  cases v with
  | array items =>
    have each := mapM_some (f := fun p => read t p.1 (path.pushIndex p.2))
      (k := fun p => value c p.1 t (path.pushIndex p.2)) fun p (mem : p ∈ items.zipIdx) =>
        inner p.1 (Json.depth_item (List.mem_of_getElem? (List.mem_zipIdx_iff_getElem?.mp mem))) _ _
    simp only [array, parts, itemDecoders_eq, List.zipIdx_map, List.mapM_map]
    refine (congrArg (· >>= _) each).trans ?_
    exact some_bind fun ds _ => rfl
  | _ => rfl

theorem roundMap_eq (t : TypeRef) :
    roundMap read t v path = ended (map v (parts c v).members t path) := by
  cases v with
  | object members =>
    have each := mapM_some (f := fun p => do return (p.1, ← read t p.2 (path.pushKey p.1)))
      (k := fun p => do return (p.1, ← value c p.2 t (path.pushKey p.1)))
      fun p (mem : p ∈ members) => by
        rw [inner p.2 (Json.depth_member mem)]
        exact some_bind fun d _ => rfl
    simp only [map, parts, memberDecoders_eq, List.mapM_map]
    refine (congrArg (· >>= _) each).trans ?_
    exact some_bind fun entries _ => rfl
  | _ => rfl

theorem roundRecord_eq (typeName : String) (declared : List Field) :
    roundRecord read typeName declared v path =
      ended (record typeName declared v (parts c v).members path) := by
  cases v with
  | object members =>
    have each : declared.foldlM (roundField read members path) [] =
        ended (fields (parts c (.object members)).members declared path) := by
      refine foldlM_some fun f _ ds => ?_
      simp only [roundField, parts, get?_memberDecoders]
      cases found : Assoc.get? members f.name with
      | some w =>
        simp only [Option.map_some]
        rw [inner w (Json.depth_get? found)]
        exact some_bind fun d _ => rfl
      | none => rfl
    refine (congrArg (· >>= _) each).trans ?_
    exact some_bind fun ds _ => rfl
  | _ => rfl

/-- A round is one step of decoding within a bound on names. -/
theorem round_eq {steps : Nat} (next : ∀ t', hop c v t = some t' →
      read t' v path = ended (typeRef c v (parts c v) steps t' path)) :
    round read c t v path = ended (typeRef c v (parts c v) (steps + 1) t path) := by
  cases t with
  | primitive | literal => rfl
  | array t => exact roundArray_eq inner t
  | map t => exact roundMap_eq inner t
  | named name =>
    rw [typeRef]
    cases entry : c.get? name with
    | none =>
      simp only [round, entry]
      rfl
    | some e =>
      simp only [hop, entry] at next
      simp only [round, entry]
      cases type : e.type with
      | record declared => exact roundRecord_eq inner e.name declared
      | enumeration values descriptions => rfl
      | array t => exact roundArray_eq inner t
      | «alias» t =>
        rw [type] at next
        exact next t rfl
      | «union» discriminant variants =>
        refine some_bind fun selected select => ?_
        simp only [type, selectVariant_ok select []] at next
        rw [next selected.2.1.type rfl]
        exact some_bind fun d _ => rfl

end Ended

end Round

/-- Decoding in rounds, and within a bound on names. -/
def rounds (c : Catalog) : Rounds TypeRef Json FieldPath DecodeError Data where
  depth := Json.depth
  hop := hop c
  places := c.entries.keys.map TypeRef.named
  round read := round read c
  within steps t v path := typeRef c v (parts c v) steps t path
  value t v path := value c v t path
  covers _ _ _ := hop_covered
  below := round_below
  asks h _ := exists_of_round h
  step inner next := round_eq inner next
  whole t v path := by rw [value_eq, List.length_map, Assoc.keys, List.length_map, Catalog.size]

theorem rounds_run (c : Catalog) (n : Nat) : (rounds c).run n = run c n := by
  induction n with
  | zero => rfl
  | succ n ih =>
    funext t v path
    rw [Rounds.run, ih]
    rfl

theorem rounds_bound (c : Catalog) (v : Json) :
    (rounds c).bound v = (c.size + 1) * (v.depth + 1) := by
  simp only [Rounds.bound, rounds, Assoc.keys, List.length_map, Catalog.size]

theorem run_eq_none_of_circle {c : Catalog} {v : Json} {t : TypeRef}
    (circle : Relation.TransGen (c.HandsOn v) t t) (n : Nat) (path : FieldPath) :
    run c n t v path = none := by
  rw [← rounds_run]
  exact Rounds.run_eq_none_of_circle (R := rounds c) circle n path

end Decode

open Decode

namespace Catalog

variable {c : Catalog}

theorem run_eq_rounds (c : Catalog) (name : String) (v : Json) :
    c.run name v = (rounds c).run ((rounds c).bound v) (.named name) v [] := by
  rw [run, rounds_run, rounds_bound]

/-- The bound on rounds cuts no reading short. -/
theorem run_eq_some_iff {name : String} {v : Json} {r : Except DecodeError Data} :
    c.run name v = some r ↔ ∃ rounds, Decode.run c rounds (.named name) v [] = some r := by
  refine ⟨fun h => ⟨_, h⟩, fun ⟨n, h⟩ => ?_⟩
  rw [← rounds_run] at h
  rw [run_eq_rounds]
  exact Rounds.run_bounded h (Nat.le_refl _)

/-- What reading ends with is what it ends with within a bound on names. -/
theorem decode_of_run {name : String} {v : Json} {r : Except DecodeError Data}
    (h : c.run name v = some r) : c.decode name v = r := by
  rw [run_eq_rounds] at h
  exact Rounds.value_of_run h

/-- Where no type hands a value on to itself, decoding ends, with the same result as within a bound
on names. -/
theorem run_eq_decode (circles : ∀ v t, ¬Relation.TransGen (c.HandsOn v) t t) (name : String)
    (v : Json) : c.run name v = some (c.decode name v) := by
  rw [run_eq_rounds]
  exact Rounds.run_eq_value (R := rounds c) circles (Nat.le_refl _)

/-- Decoding always ends exactly if no type hands a value on to itself. -/
theorem run_isSome_iff : (∀ name v, (c.run name v).isSome = true) ↔
    ∀ v t, ¬Relation.TransGen (c.HandsOn v) t t := by
  simp only [run_eq_rounds, Option.isSome_iff_exists]
  refine Rounds.ends_iff (R := rounds c) (fun v t t' next => ?_) []
  cases t with
  | named name => exact ⟨name, rfl⟩
  | _ => cases next

end Catalog

end TypedArchive
