import TypedArchive.Proofs.Binding.Call
import TypedArchive.Proofs.Binding.Walk
import TypedArchive.Proofs.Emit.Reads

/-! Where a reading starts. Reading a value below a path comes to what reading it at the top comes to;
only the places that errors tell, and the path that a failure leaves, stand below the path. This is
shown for the calls of a record reader, each for one member, and from them for records, unions and
all other types. -/

namespace TypedArchive

/-- The error of a reading that starts at a path, from that of a reading that starts at the top. -/
def DecodeError.under (p : FieldPath) : DecodeError → DecodeError
  | missingField path => missingField (p ++ path)
  | typeMismatch path expected found => typeMismatch (p ++ path) expected found
  | unknownEnumValue path typeName value => unknownEnumValue (p ++ path) typeName value
  | unknownTag path typeName discriminant tag => unknownTag (p ++ path) typeName discriminant tag
  | noMatchingVariant path typeName => noMatchingVariant (p ++ path) typeName
  | unknownType path typeName => unknownType (p ++ path) typeName
  | custom path text => custom (p ++ path) text

namespace DecodeError

@[simp] theorem path_under (p : FieldPath) (e : DecodeError) : (e.under p).path = p ++ e.path := by
  cases e <;> rfl

theorem under_inj {p q : FieldPath} {e : DecodeError} (h : e.under p = e.under q) : p = q := by
  have paths := congrArg path h
  rw [path_under, path_under] at paths
  exact List.append_cancel_right paths

end DecodeError

namespace Reader

variable {α β : Type}

/-- The end of a reading that starts at a path, from that of one that starts at the top. -/
def under (p : FieldPath) (x : ReadResult α) : ReadResult α :=
  x.mapError fun e => (e.1.under p, p ++ e.2)

/-- Where a reading starts shows in its error and in the path that it leaves, and nowhere else. -/
def Moves (read : FieldPath → ReadResult α) : Prop := ∀ p q, read (p ++ q) = under p (read q)

namespace Moves

theorem ok (a : α) : Moves fun _ => (.ok a : ReadResult α) := fun _ _ => rfl

theorem fail {make : FieldPath → DecodeError} (natural : ∀ p q, make (p ++ q) = (make q).under p) :
    Moves fun path => (.error (make path, path) : ReadResult α) := by
  intro p q
  dsimp only
  rw [natural]
  rfl

theorem mismatch (expected : String) (v : Json) :
    Moves (Reader.mismatch expected v : FieldPath → ReadResult α) :=
  fail fun _ _ => rfl

theorem bind {x : FieldPath → ReadResult α} {f : α → FieldPath → ReadResult β} (hx : Moves x)
    (hf : ∀ a, Moves (f a)) : Moves fun path => x path >>= fun a => f a path := by
  intro p q
  dsimp only
  rw [hx p q]
  cases x q with
  | error e => rfl
  | ok a => exact hf a p q

theorem map {x : FieldPath → ReadResult α} (f : α → β) (hx : Moves x) :
    Moves fun path => f <$> x path := by
  intro p q
  dsimp only
  rw [hx p q]
  cases x q <;> rfl

theorem push {x : FieldPath → ReadResult α} (s : Segment) (hx : Moves x) :
    Moves fun path => x (path ++ [s]) := by
  intro p q
  dsimp only
  rw [List.append_assoc]
  exact hx p _

/-- What is left on the path is below the start. -/
theorem below {x : FieldPath → ReadResult α} (hx : Moves x) {p : FieldPath}
    {e : DecodeError × FieldPath} (h : x p = .error e) : p <+: e.2 := by
  have moved := hx p []
  rw [List.append_nil, h] at moved
  cases top : x [] with
  | ok a =>
    rw [top] at moved
    cases moved
  | error e' =>
    rw [top] at moved
    cases moved
    exact List.prefix_append p e'.2

theorem mapM {f : FieldPath → α → ReadResult β} {xs : List α}
    (each : ∀ x ∈ xs, Moves fun path => f path x) : Moves fun path => xs.mapM (f path) := by
  induction xs with
  | nil => exact ok []
  | cons x xs ih =>
    rw [List.forall_mem_cons] at each
    simp only [List.mapM_cons]
    exact each.1.bind fun y => (ih each.2).bind fun ys => ok _

end Moves

end Reader

namespace RecordReader

section Moves

variable {members : Assoc (Json × EmittedReader)}
  (moves : ∀ p ∈ members, ∀ t, Reader.Moves (p.2.2 t))

include moves

theorem ask_moves (c : MemberCall) : Reader.Moves (c.ask members) := by
  intro p q
  rw [MemberCall.ask, MemberCall.ask]
  cases found : members.get? c.key with
  | none =>
    dsimp only
    split
    · rfl
    · simp [Reader.under, Except.mapError, DecodeError.under, FieldPath.pushKey]
  | some member =>
    obtain ⟨v, reader⟩ := member
    dsimp only
    split
    · simp [Reader.under, Except.mapError, DecodeError.under, FieldPath.pushKey]
    · have reads : Reader.Moves (reader c.type) := moves _ (Assoc.mem_of_get? found) c.type
      have moved : reader c.type ((p ++ q).pushKey c.key) =
          Reader.under p (reader c.type (q.pushKey c.key)) := by
        rw [FieldPath.pushKey, List.append_assoc]
        exact reads p _
      rw [moved]
      cases read : reader c.type (q.pushKey c.key) with
      | ok x => rfl
      | error e =>
        have nonempty : e.2 ≠ [] := fun empty => by
          have below := reads.below read
          rw [empty, List.prefix_nil] at below
          exact List.append_ne_nil_of_right_ne_nil q (List.cons_ne_nil _ _) below
        simp [Reader.under, Except.mapError, FieldPath.pop, List.dropLast_append_of_ne_nil nonempty]

end Moves

def under (p : FieldPath) (r : RecordReader) : RecordReader := { r with path := p ++ r.path }

theorem left_under (p path : FieldPath) {α : Type} (x : ReadResult α) :
    left (p ++ path) (Reader.under p x) = p ++ left path x := by
  cases x <;> rfl

theorem call_under {r : RecordReader} (moves : ∀ p ∈ r.members, ∀ t, Reader.Moves (p.2.2 t))
    (p : FieldPath) (c : MemberCall) : (r.under p).call c =
      ((r.call c).1.mapError (DecodeError.under p), (r.call c).2.under p) := by
  rw [call_eq, call_eq]
  have moved : c.ask (r.under p).members (r.under p).path = Reader.under p (c.ask r.members r.path) :=
    ask_moves moves c p r.path
  rw [moved]
  refine Prod.ext ?_ ?_
  · cases c.ask r.members r.path <;> rfl
  · simp only [under, left_under]
    rfl

theorem go_under {r : RecordReader} (moves : ∀ p ∈ r.members, ∀ t, Reader.Moves (p.2.2 t))
    (p : FieldPath) (reads : List FieldRead) (fields : List (String × Option EmittedValue)) :
    readAll.go (r.under p) reads fields =
      (Reader.under p (readAll.go r reads fields)).map fun x => (x.1, x.2.under p) := by
  induction reads generalizing r fields with
  | nil => rfl
  | cons f reads ih =>
    have members := r.call_members (.ofRead f)
    rw [readAll.go, readAll.go, read_eq_call, read_eq_call, call_under moves]
    generalize r.call (.ofRead f) = step at members
    obtain ⟨result, r'⟩ := step
    cases result with
    | error e => rfl
    | ok x => exact ih (members ▸ moves) _

theorem readAll_moves {members : Assoc (Json × EmittedReader)}
    (moves : ∀ p ∈ members, ∀ t, Reader.Moves (p.2.2 t)) (reads : List FieldRead) :
    Reader.Moves fun path => ({ members, path } : RecordReader).readAll reads := by
  intro p q
  have moved := go_under (r := { members, path := q }) moves p reads []
  change readAll.go { members, path := p ++ q } reads [] = _ at moved
  dsimp only
  rw [readAll, readAll, moved]
  cases readAll.go { members, path := q } reads [] <;> rfl

end RecordReader

namespace Reader

/-- A reading that does not go into a value: it takes the value or reports the kind of it. -/
inductive Settles {α : Type} (v : Json) : (FieldPath → ReadResult α) → Prop
  | ok (a : α) : Settles v fun _ => .ok a
  | mismatch (expected : String) : Settles v (Reader.mismatch expected v)

namespace Settles

variable {v : Json} {x : FieldPath → ReadResult α}

theorem map (f : α → β) (h : Settles v x) : Settles v fun path => f <$> x path := by
  cases h with
  | ok a => exact .ok (f a)
  | mismatch expected => exact .mismatch expected

theorem moves (h : Settles v x) : Moves x := by
  cases h with
  | ok a => exact .ok a
  | mismatch expected => exact .mismatch expected v

end Settles

theorem string_settles (v : Json) : Settles v (string v) := by
  cases v with
  | string s => exact .ok s
  | _ => exact .mismatch "string"

theorem integer_settles (v : Json) : Settles v (integer v) := by
  cases v with
  | number n =>
    cases whole : n.toInt64? with
    | some i =>
      have eq : integer (.number n) = fun _ => .ok i := by
        funext path
        rw [integer, whole]
      rw [eq]
      exact .ok i
    | none =>
      have eq : integer (.number n) = mismatch "integer" (.number n) := by
        funext path
        rw [integer, whole]
      rw [eq]
      exact .mismatch "integer"
  | _ => exact .mismatch "integer"

theorem number_settles (v : Json) : Settles v (number v) := by
  cases v with
  | number n => exact .ok n
  | _ => exact .mismatch "number"

theorem boolean_settles (v : Json) : Settles v (boolean v) := by
  cases v with
  | bool b => exact .ok b
  | _ => exact .mismatch "boolean"

theorem unit_settles (v : Json) : Settles v (unit v) := by
  cases v with
  | null => exact .ok ()
  | _ => exact .mismatch "null"

section Parts

variable {v : Json} {parts : ReaderParts}

theorem list_moves (items : ∀ item ∈ parts.items, ∀ t, Moves (item t)) (t : EmittedType) :
    Moves (list v parts.items t) := by
  cases v with
  | array =>
    refine (Moves.mapM fun p mem => ?_).map EmittedValue.list
    have item := List.mem_of_getElem? (List.mem_zipIdx_iff_getElem?.mp mem)
    exact (items p.1 item t).push (.index p.2)
  | _ => exact .mismatch _ _

theorem map_moves {members : Assoc EmittedReader} (each : ∀ p ∈ members, ∀ t, Moves (p.2 t))
    (t : EmittedType) : Moves (map v members t) := by
  cases v with
  | object =>
    refine (Moves.mapM fun p mem => ?_).map EmittedValue.map
    exact ((each p mem t).push (.key p.1)).bind fun x => .ok (p.1, x)
  | _ => exact .mismatch _ _

theorem unionTag_under (discriminant : String) (p q : FieldPath) :
    unionTag v discriminant (p ++ q) = (unionTag v discriminant q).mapError (.under p) := by
  cases v with
  | object all =>
    rw [unionTag, unionTag]
    cases all.lookup discriminant with
    | some tag => rfl
    | none => simp [Except.mapError, DecodeError.under, FieldPath.pushKey]
  | _ => rfl

theorem selectTagged_under (name discriminant : String)
    (variants : List (Option Literal × EmittedType)) (p q : FieldPath) :
    selectTagged name discriminant variants v (p ++ q) =
      (selectTagged name discriminant variants v q).mapError (.under p) := by
  rw [selectTagged, selectTagged, unionTag_under]
  cases unionTag v discriminant q with
  | error e => rfl
  | ok tag =>
    simp only [Except.mapError, bind, Except.bind]
    split <;> rfl

theorem selectShaped_under (name : String) (variants : List (Shape × EmittedType))
    (p q : FieldPath) : selectShaped name variants v (p ++ q) =
      (selectShaped name variants v q).mapError (.under p) := by
  rw [selectShaped, selectShaped]
  split <;> rfl

theorem variant_moves {selected : FieldPath → Except DecodeError (Nat × EmittedType)}
    (natural : ∀ p q, selected (p ++ q) = (selected q).mapError (.under p)) {read : EmittedReader}
    (moves : ∀ t, Moves (read t)) : Moves fun path =>
      match selected path with
      | .error e => .error (e, path)
      | .ok (index, t) => EmittedValue.variant index <$> read t path := by
  intro p q
  dsimp only
  rw [natural]
  cases selected q with
  | error e => rfl
  | ok choice => exact (moves choice.2).map (EmittedValue.variant choice.1) p q

variable (items : ∀ item ∈ parts.items, ∀ t, Moves (item t))
  (members : ∀ p ∈ parts.members, ∀ t, Moves (p.2.2 t))

include items members

theorem atType_moves {atName : String → FieldPath → ReadResult EmittedValue}
    (named : ∀ name, Moves (atName name)) (t : EmittedType) :
    Moves (atType atName v parts t) := by
  induction t with
  | string => exact (string_settles v).moves.map EmittedValue.string
  | integer => exact (integer_settles v).moves.map EmittedValue.integer
  | number => exact (number_settles v).moves.map EmittedValue.number
  | boolean => exact (boolean_settles v).moves.map EmittedValue.boolean
  | unit => exact (unit_settles v).moves.map fun _ => EmittedValue.unit
  | json => exact .ok (EmittedValue.json v)
  | named name => exact named name
  | boxed t ih => exact ih
  | list t => exact list_moves items t
  | map t =>
    refine map_moves (fun p mem => ?_) t
    obtain ⟨q, listed, rfl⟩ := List.mem_map.mp mem
    exact members q listed

theorem atName_moves (plans : Assoc DecodePlan) (steps : Nat) (name : String) :
    Moves (atName plans v parts steps name) := by
  induction steps generalizing name with
  | zero => exact .fail fun _ _ => rfl
  | succ steps ih =>
    have types := atType_moves (v := v) items members ih
    intro p q
    rw [atName, atName]
    cases plans.get? name with
    | none => rfl
    | some plan =>
      cases plan with
      | record reads =>
        cases v with
        | object => exact RecordReader.readAll_moves members reads p q
        | _ => rfl
      | textEnum values =>
        cases v with
        | string s =>
          dsimp only [string]
          split <;> rfl
        | _ => rfl
      | literalEnum values =>
        dsimp only
        split <;> rfl
      | tagged discriminant variants =>
        exact variant_moves (selectTagged_under name discriminant variants) types p q
      | shaped variants => exact variant_moves (selectShaped_under name variants) types p q
      | same t => exact types t p q

end Parts

/-- Every reading moves with its path. -/
theorem value_moves (plans : Assoc DecodePlan) (v : Json) (t : EmittedType) :
    Moves (value plans v t) := by
  induction size : sizeOf v using Nat.strong_induction_on generalizing v t with
  | h n ih =>
    subst size
    have items (item) (mem : item ∈ (parts plans v).items) (t) : Moves (item t) := by
      cases v with
      | array all =>
        rw [parts, itemReaders_eq] at mem
        obtain ⟨w, listed, rfl⟩ := List.mem_map.mp mem
        exact ih _ (Json.sizeOf_item listed) w t rfl
      | _ => cases mem
    have members (p) (mem : p ∈ (parts plans v).members) (t) : Moves (p.2.2 t) := by
      cases v with
      | object all =>
        rw [parts, memberReaders_eq] at mem
        obtain ⟨w, listed, rfl⟩ := List.mem_map.mp mem
        exact ih _ (Json.sizeOf_member listed) w.2 t rfl
      | _ => cases mem
    rw [value_eq]
    exact atType_moves items members (atName_moves items members plans _) t

end Reader

end TypedArchive
