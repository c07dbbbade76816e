import TypedArchive.Proofs.Binding.Call
import TypedArchive.Proofs.Compile.Soundness
import TypedArchive.Proofs.Emit.Widen

/-! Emitted types read JSON as the widened catalog does: they accept the same values, and reject the
others at the same path. -/

namespace TypedArchive

/-- Where decoding rejects a value. -/
abbrev Decode.fault {α : Type} : Except DecodeError α → Option FieldPath :=
  Outcome.fault DecodeError.path

/-- Where an emitted type rejects a value. -/
abbrev Reader.fault {α : Type} : ReadResult α → Option FieldPath :=
  Outcome.fault fun e => e.1.path

theorem Number.same_ofInt64 (n : Number) (i : Int64) :
    n.same (ofInt64 i) = true ↔ n.toInt64? = some i := by
  constructor
  · intro equal
    cases n with
    | double x => cases equal
    | integer j fits =>
      obtain rfl : j = i.toInt := by simpa [same, ofInt64] using equal
      exact toInt64?_ofInt64 i
  · intro eq
    rw [← ofInt64_of_toInt64? eq]
    simp [same, ofInt64]

/-- Equality with a literal's JSON is being that literal. -/
theorem Json.same_toJson (v : Json) (l : Literal) : v.same l.toJson = l.accepts v := by
  rw [Bool.eq_iff_iff, Literal.accepts, beq_iff_eq]
  cases l <;> cases v <;>
    simp [Literal.toJson, same, Literal.ofJson?, Json.ofInt64, Number.same_ofInt64]

namespace Reader

/-- The readers of the values inside a value. -/
def parts (plans : Assoc DecodePlan) : Json → ReaderParts
  | .array items => { items := itemReaders plans items }
  | .object members => { members := memberReaders plans members }
  | _ => {}

theorem value_eq (plans : Assoc DecodePlan) (v : Json) :
    value plans v =
      atType (atName plans v (parts plans v) (plans.length + 1)) v (parts plans v) := by
  cases v <;> rfl

theorem itemReaders_eq (plans : Assoc DecodePlan) (items : List Json) :
    itemReaders plans items = items.map (value plans) := by
  induction items with
  | nil => rfl
  | cons v rest ih => rw [itemReaders, ih, List.map_cons]

theorem memberReaders_eq (plans : Assoc DecodePlan) (members : Assoc Json) :
    memberReaders plans members = members.mapValues fun w => (w, value plans w) := by
  induction members with
  | nil => rfl
  | cons p rest ih =>
    obtain ⟨k, v⟩ := p
    rw [memberReaders, ih]
    rfl

/-- A box reads as what it holds. -/
theorem value_ofField (plans : Assoc DecodePlan) (w : Json) (c : Catalog) (owner : String)
    (t : TypeRef) : value plans w (.ofField c owner t) = value plans w (.ofRef t) := by
  rw [value_eq]
  cases t with
  | named name =>
    funext path
    simp only [EmittedType.ofField]
    split
    · rw [atType]
    · rfl
  | _ => rfl

end Reader

namespace RecordReader

/-- Where a record rejects the member that is to be read next. -/
def memberFault (r : RecordReader) (f : FieldRead) : Option FieldPath :=
  match r.members.get? f.key with
  | none => if f.optional then none else some (r.path.pushKey f.key)
  | some (v, reader) =>
    if f.expected.all fun l => v.same l.toJson then
      Reader.fault (reader f.type (r.path.pushKey f.key))
    else some (r.path.pushKey f.key)

theorem fault_ask (r : RecordReader) (f : FieldRead) :
    Reader.fault ((MemberCall.ofRead f).ask r.members r.path) = r.memberFault f := by
  obtain ⟨key, isOptional, expected, type⟩ := f
  cases found : r.members.get? key with
  | none =>
    cases isOptional <;>
      simp [MemberCall.ask, MemberCall.ofRead, memberFault, found, DecodeError.path]
  | some p =>
    obtain ⟨v, reader⟩ := p
    cases expected with
    | none =>
      cases given : reader type (r.path.pushKey key) <;>
        simp [MemberCall.ask, MemberCall.ofRead, memberFault, found, given]
    | some l =>
      cases same : v.same l.toJson with
      | false =>
        simp [MemberCall.ask, MemberCall.ofRead, memberFault, found, same, Option.filter_some,
          DecodeError.path]
      | true =>
        cases given : reader type (r.path.pushKey key) <;>
          simp [MemberCall.ask, MemberCall.ofRead, memberFault, found, same, given,
            Option.filter_some]

/-- Reading a member fails where the member is at fault; else the members and the path stay. -/
theorem read_spec (r : RecordReader) (f : FieldRead) :
    Decode.fault (r.read f).1 = r.memberFault f ∧
      ∀ x, (r.read f).1 = .ok x →
        (r.read f).2.members = r.members ∧ (r.read f).2.path = r.path := by
  rw [read_eq_call, call_eq, ← fault_ask]
  cases (MemberCall.ofRead f).ask r.members r.path with
  | ok x => exact ⟨rfl, fun _ _ => ⟨rfl, rfl⟩⟩
  | error e =>
    refine ⟨rfl, fun x h => ?_⟩
    cases h

/-- The path moves on a failure only, so every member is judged from the same place. -/
theorem fault_go (r : RecordReader) (reads : List FieldRead)
    (fields : List (String × Option EmittedValue)) :
    Reader.fault (readAll.go r reads fields) = reads.findSome? r.memberFault := by
  induction reads generalizing r fields with
  | nil => rfl
  | cons f rest ih =>
    obtain ⟨fault, stays⟩ := r.read_spec f
    rw [readAll.go, Outcome.findSome?_cons_or, ← fault]
    generalize r.read f = read at stays
    obtain ⟨result, r'⟩ := read
    cases result with
    | error e => rfl
    | ok x =>
      obtain ⟨members, path⟩ := stays x rfl
      have same : r'.memberFault = r.memberFault := by
        funext g
        rw [memberFault, memberFault, members, path]
      simp only [ih, same, Outcome.fault_ok, Option.none_or]

/-- A record is rejected at the first of its members that is at fault. -/
theorem fault_readAll (r : RecordReader) (reads : List FieldRead) :
    Reader.fault (r.readAll reads) = reads.findSome? r.memberFault := by
  rw [← r.fault_go reads [], readAll]
  cases readAll.go r reads [] <;> rfl

end RecordReader

namespace Decode

/-- Where decoding rejects the member of a declared field. -/
def memberFault (members : Assoc Decoder) (path : FieldPath) (f : Field) : Option FieldPath :=
  match members.get? f.name with
  | some member => fault (member f.type (path.pushKey f.name))
  | none => if f.optional then none else some (path.pushKey f.name)

theorem fault_fields (members : Assoc Decoder) (declared : List Field) (path : FieldPath) :
    fault (fields members declared path) = declared.findSome? (memberFault members path) := by
  refine Outcome.fault_foldlM (fun read f => ?_) declared []
  rw [memberFault]
  cases members.get? f.name with
  | some member => exact Outcome.fault_bind_pure
  | none =>
    dsimp only
    split <;> rfl

theorem fault_enumeration (name : String) (values : List Literal) (v : Json) (path : FieldPath) :
    fault (enumeration name values v path) =
      if values.any fun l => l.accepts v then none else some path := by
  rw [enumeration]
  cases literal : Literal.ofJson? v with
  | none => simp [Literal.accepts, literal, mismatch, DecodeError.path]
  | some l =>
    have any : (values.any fun m => m.accepts v) = true ↔ l ∈ values := by
      simp [Literal.accepts, literal]
    by_cases mem : l ∈ values
    · simp [mem, any.mpr mem]
    · simp only [if_neg mem, if_neg (mt any.mp mem)]
      split <;> rfl

end Decode

/-- The two ways of reading a value reject it at the same places: as an emitted type, and as the
expression, free of literals, that the type was emitted for. -/
def Catalog.ReadsAlike (c : Catalog) (v : Json) : Prop :=
  ∀ t : TypeRef, t.widen = t → ∀ path,
    Reader.fault (Reader.value c.plans v (.ofRef t) path) = Decode.fault (Decode.value c v t path)

theorem Reader.fault_primitive (atName : String → FieldPath → ReadResult EmittedValue)
    (parts : ReaderParts) (p : Primitive) (v : Json) (path : FieldPath) :
    fault (atType atName v parts (.ofPrimitive p) path) =
      Decode.fault (Decode.primitive p v path) := by
  cases p <;> cases v <;> try rfl
  case integer.number n =>
    simp only [EmittedType.ofPrimitive, atType, integer, Decode.primitive]
    cases n.toInt64? <;> rfl

theorem Catalog.get?_plans (c : Catalog) (name : String) :
    c.plans.get? name = (c.get? name).map c.plan :=
  Assoc.get?_mapValues c.plan c.entries name

/-- The texts of an enum have one that a value is exactly if its literals do. -/
theorem any_enumTexts {values : List Literal} {texts : List String}
    (h : enumTexts? values = some texts) (v : Json) :
    (values.any fun l => l.accepts v) = texts.any fun s => (Literal.string s).accepts v := by
  have strings := Outcome.mapM_eq_some.mp h
  clear h
  induction strings with
  | nil => rfl
  | @cons l s values texts first _ ih =>
    obtain rfl : l = .string s := by
      cases l <;> simp_all [Literal.asString?]
    rw [List.any_cons, List.any_cons, ih]

namespace Reader

theorem fault_enumeration {c : Catalog} {name : String} {e : Entry} {v : Json} {parts : ReaderParts}
    {steps : Nat} {path : FieldPath} (entry : c.get? name = some e) {values : List Literal}
    {descriptions : List String} (type : e.type = .enumeration values descriptions) :
    fault (atName c.plans v parts (steps + 1) name path) =
      Decode.fault (Decode.enumeration e.name values v path) := by
  rw [atName, Decode.fault_enumeration]
  simp only [Catalog.get?_plans, entry, Option.map_some, Catalog.plan, type]
  cases texts : enumTexts? values with
  | some texts' =>
    rw [any_enumTexts texts]
    cases v with
    | string s =>
      by_cases mem : s ∈ texts'
      · simp [string, mem, Literal.accepts, Literal.ofJson?]
      · simp [string, mem, Literal.accepts, Literal.ofJson?, DecodeError.path]
    | _ => simp [string, mismatch, Literal.accepts, Literal.ofJson?, DecodeError.path]
  | none =>
    simp only [Json.same_toJson]
    rw [← List.isSome_find?]
    cases values.find? fun l => l.accepts v <;> rfl

section Choice

variable {variants : List Variant}

/-- Both ways of choosing a variant take the same one, or fail at the same path. -/
inductive SameChoice (variants : List Variant) :
    Except DecodeError (Nat × EmittedType) →
      Except DecodeError (Nat × Variant × Option Literal) → Prop
  | chosen {w : Variant} (mem : w ∈ variants) (index : Nat) (tag : Option Literal) :
      SameChoice variants (.ok (index, .ofRef w.type)) (.ok (index, w, tag))
  | failed {e e' : DecodeError} (path : e.path = e'.path) :
      SameChoice variants (.error e) (.error e')

theorem mem_of_find_zipIdx {test : Variant × Nat → Bool} {p : Variant × Nat}
    (found : variants.zipIdx.find? test = some p) : p.1 ∈ variants :=
  List.mem_of_getElem? (List.mem_zipIdx_iff_getElem?.mp (List.mem_of_find?_eq_some found))

theorem selectShaped_same (name typeName : String) (v : Json) (path : FieldPath) :
    SameChoice variants
      (selectShaped name (variants.map fun w => (w.shape, .ofRef w.type)) v path)
      (Decode.selectVariant typeName none variants v path) := by
  simp only [selectShaped, Decode.selectVariant, List.zipIdx_map, List.find?_map,
    Function.comp_def, Prod.map_fst]
  cases found : variants.zipIdx.find? fun p => p.1.shape.accepts v with
  | none => exact .failed rfl
  | some p => exact .chosen (mem_of_find_zipIdx found) p.2 none

/-- A tag is tested against JSON in one way, and read as a literal first in the other. -/
theorem selectTagged_same (name typeName discriminant : String) (v : Json) (path : FieldPath) :
    SameChoice variants
      (selectTagged name discriminant (variants.map fun w => (w.tag, .ofRef w.type)) v path)
      (Decode.selectVariant typeName (some discriminant) variants v path) := by
  cases v with
  | object members =>
    simp only [selectTagged, unionTag, Decode.selectVariant]
    cases members.lookup discriminant with
    | none => exact .failed rfl
    | some raw =>
      simp only [List.zipIdx_map, List.find?_map, Function.comp_def, Prod.map_fst,
        Json.same_toJson, bind, Except.bind]
      cases literal : Literal.ofJson? raw with
      | none =>
        have untold :
            variants.zipIdx.find? (fun p => p.1.tag.any fun l => l.accepts raw) = none := by
          simp [List.find?_eq_none, Literal.accepts, literal]
        rw [untold]
        exact .failed rfl
      | some tag =>
        have told (p : Variant × Nat) :
            (p.1.tag.any fun l => l.accepts raw) = (p.1.tag == some tag) := by
          cases p.1.tag with
          | none => rfl
          | some l => simp [Literal.accepts, literal, Bool.beq_eq_decide_eq, eq_comm]
        simp only [told, variantForTag?]
        cases found : variants.zipIdx.find? fun p => p.1.tag == some tag with
        | none => exact .failed rfl
        | some p => exact .chosen (mem_of_find_zipIdx found) p.2 (some tag)
  | _ => exact .failed rfl

/-- A union rejects a value where its choice fails, and else where the chosen variant does. -/
theorem fault_variant {selected : Except DecodeError (Nat × EmittedType)}
    {selected' : Except DecodeError (Nat × Variant × Option Literal)}
    (same : SameChoice variants selected selected') {read : EmittedReader} {read' : Decoder}
    {path : FieldPath}
    (agree : ∀ w ∈ variants, fault (read (.ofRef w.type) path) = Decode.fault (read' w.type path))
    (typeName : String) :
    fault (match selected with
      | .error e => .error (e, path)
      | .ok (index, t) => EmittedValue.variant index <$> read t path) =
      Decode.fault (do
        let (index, w, tag) ← selected'
        return Data.union typeName tag index (← read' w.type path)) := by
  cases same with
  | chosen mem index tag =>
    exact (Outcome.fault_map _ _).trans ((agree _ mem).trans Outcome.fault_bind_pure.symm)
  | failed path => exact congrArg some path

end Choice

section Parts

variable {c : Catalog} {v : Json} {t : TypeRef}
  (inner : ∀ w, sizeOf w < sizeOf v → c.ReadsAlike w)

include inner

theorem fault_list (free : t.widen = t) (path : FieldPath) :
    fault (list v (parts c.plans v).items (.ofRef t) path) =
      Decode.fault (Decode.array v (Decode.parts c v).items t path) := by
  cases v with
  | array items =>
    simp only [list, Decode.array, parts, Decode.parts, itemReaders_eq, Decode.itemDecoders_eq,
      Outcome.fault_map, Outcome.fault_mapM, List.zipIdx_map, List.findSome?_map]
    refine Outcome.findSome?_congr fun p mem => ?_
    have item := List.mem_of_getElem? (List.mem_zipIdx_iff_getElem?.mp mem)
    exact inner p.1 (Json.sizeOf_item item) t free _
  | _ => rfl

theorem fault_map (free : t.widen = t) (path : FieldPath) :
    fault (map v ((parts c.plans v).members.map fun p => (p.1, p.2.2)) (.ofRef t) path) =
      Decode.fault (Decode.map v (Decode.parts c v).members t path) := by
  cases v with
  | object members =>
    simp only [map, Decode.map, parts, Decode.parts, memberReaders_eq, Assoc.mapValues,
      Decode.memberDecoders_eq, Outcome.fault_map, Outcome.fault_mapM, List.findSome?_map]
    refine Outcome.findSome?_congr fun p mem => ?_
    have alike := inner p.2 (Json.sizeOf_member mem) t free (path.pushKey p.1)
    exact Outcome.fault_bind_pure.trans (alike.trans Outcome.fault_bind_pure.symm)
  | _ => rfl

/-- A field that stays as it is when the catalog is widened is at fault in both ways or in none. -/
theorem memberFault_fieldRead {members : List (String × Json)} (object : v = .object members)
    {f : Field} (fixed : f.widen = f) (owner : String) (path : FieldPath) :
    RecordReader.memberFault { members := memberReaders c.plans members, path }
        (c.fieldRead owner f) =
      Decode.memberFault (Decode.memberDecoders c members) path f := by
  rw [RecordReader.memberFault, Decode.memberFault, memberReaders_eq, Assoc.get?_mapValues,
    Decode.get?_memberDecoders, show (c.fieldRead owner f).key = f.name from rfl]
  cases found : Assoc.get? members f.name with
  | none => rfl
  | some w =>
    simp only [Option.map_some]
    rcases f.widen_cases with ⟨l, type, -⟩ | ⟨free, eq⟩
    · rw [c.expected_of_literal owner type]
      simp only [Option.all_some, Json.same_toJson, Catalog.fieldRead, value_ofField, type,
        Decode.value_eq, Decode.typeRef, Decode.literal]
      split
      · rw [value_eq]
        exact fault_primitive _ _ l.primitive w _
      · rfl
    · rw [c.expected_of_free owner free]
      simp only [Option.all_none, if_true, Catalog.fieldRead, value_ofField]
      exact inner w (object ▸ Json.sizeOf_get? found) f.type
        (congrArg Field.type (eq.symm.trans fixed)) _

/-- A record rejects a value at the same member, or as a whole, in both ways. -/
theorem fault_record {declared : List Field} (fixed : ∀ f ∈ declared, f.widen = f)
    (owner typeName : String) (path : FieldPath) :
    fault (match v with
      | .object _ => RecordReader.readAll { members := (parts c.plans v).members, path }
          (declared.map (c.fieldRead owner))
      | v => mismatch "object" v path) =
      Decode.fault (Decode.record typeName declared v (Decode.parts c v).members path) := by
  cases object : v with
  | object members =>
    simp only [Decode.record, parts, Decode.parts]
    refine Eq.trans ?_ (Outcome.fault_bind_pure.trans (Decode.fault_fields _ _ _)).symm
    rw [RecordReader.fault_readAll, List.findSome?_map]
    exact Outcome.findSome?_congr fun f mem =>
      memberFault_fieldRead inner object (fixed f mem) owner path
  | _ => rfl

/-- A type rejects the value alike in both ways, given that the names that it hands the whole value
on to do. -/
theorem fault_atType {steps : Nat} {path : FieldPath}
    (names : ∀ name, fault (atName c.plans v (parts c.plans v) steps name path) =
      Decode.fault (Decode.typeRef c v (Decode.parts c v) steps (.named name) path))
    (free : t.widen = t) :
    fault (atType (atName c.plans v (parts c.plans v) steps) v (parts c.plans v) (.ofRef t) path) =
      Decode.fault (Decode.typeRef c v (Decode.parts c v) steps t path) := by
  cases t with
  | named name => exact names name
  | primitive p =>
    rw [Decode.typeRef]
    exact fault_primitive _ _ p v path
  | literal l => cases free
  | array t =>
    rw [Decode.typeRef]
    exact fault_list inner (TypeRef.array.inj free) path
  | map t =>
    rw [Decode.typeRef]
    exact fault_map inner (TypeRef.map.inj free) path

/-- An entry rejects the value alike in both ways, given that the types that it hands the whole
value on to do. -/
theorem fault_entry (plain : c.widen = c) {name : String} {e : Entry}
    (entry : c.get? name = some e) {steps : Nat} {path : FieldPath}
    (next : ∀ t : TypeRef, t.widen = t → fault
        (atType (atName c.plans v (parts c.plans v) steps) v (parts c.plans v) (.ofRef t) path) =
      Decode.fault (Decode.typeRef c v (Decode.parts c v) steps t path)) :
    fault (atName c.plans v (parts c.plans v) (steps + 1) name path) =
      Decode.fault (Decode.typeRef c v (Decode.parts c v) (steps + 1) (.named name) path) := by
  have fixed : e.type.widen = e.type := by
    have same := c.get?_widen name
    rw [plain, entry, Option.map_some, Option.some.injEq] at same
    exact congrArg Entry.type same.symm
  rw [Decode.typeRef]
  simp only [entry]
  cases type : e.type with
  | enumeration values descriptions => exact fault_enumeration entry type
  | record declared =>
    rw [type, TypeDef.widen, TypeDef.record.injEq] at fixed
    rw [atName]
    simp only [Catalog.get?_plans, entry, Option.map_some, Catalog.plan, type]
    exact fault_record inner (Outcome.eq_of_map_eq_self fixed) e.name e.name path
  | array t =>
    rw [type, TypeDef.widen, TypeDef.array.injEq] at fixed
    rw [atName]
    simp only [Catalog.get?_plans, entry, Option.map_some, Catalog.plan, type, atType]
    exact fault_list inner fixed path
  | «alias» t =>
    rw [type, TypeDef.widen, TypeDef.alias.injEq] at fixed
    rw [atName]
    simp only [Catalog.get?_plans, entry, Option.map_some, Catalog.plan, type]
    exact next t fixed
  | «union» discriminant variants =>
    rw [type, TypeDef.widen, TypeDef.union.injEq] at fixed
    have next (w) (mem : w ∈ variants) := next w.type
      (congrArg Variant.type (Outcome.eq_of_map_eq_self fixed.2 w mem))
    rw [atName]
    simp only [Catalog.get?_plans, entry, Option.map_some, Catalog.plan, type]
    cases discriminant with
    | none => exact fault_variant (selectShaped_same name e.name v path) next e.name
    | some discriminant =>
      exact fault_variant (selectTagged_same name e.name discriminant v path) next e.name

theorem fault_atName (plain : c.widen = c) (steps : Nat) (name : String) (path : FieldPath) :
    fault (atName c.plans v (parts c.plans v) steps name path) =
      Decode.fault (Decode.typeRef c v (Decode.parts c v) steps (.named name) path) := by
  induction steps generalizing name with
  | zero => rfl
  | succ steps ih =>
    cases entry : c.get? name with
    | none =>
      rw [atName, Decode.typeRef]
      simp only [Catalog.get?_plans, entry, Option.map_none]
      rfl
    | some e => exact fault_entry inner plain entry fun t => fault_atType inner ih

end Parts

end Reader

/-- Without literals beyond the types of fields, emitted types read as the catalog does. -/
theorem Catalog.readsAlike {c : Catalog} (plain : c.widen = c) (v : Json) : c.ReadsAlike v := by
  induction size : sizeOf v using Nat.strong_induction_on generalizing v with
  | h n ih =>
    subst size
    intro t free path
    -- both ways count names up to the number of entries, and start anew in a part of the value
    rw [Reader.value_eq, Decode.value_eq, plans, List.length_map]
    have inner (w) (lt : sizeOf w < sizeOf v) := ih _ lt w rfl
    exact Reader.fault_atType inner (fun name => Reader.fault_atName inner plain _ name path) free

theorem Catalog.fault_decode_plans {c : Catalog} (plain : c.widen = c) (name : String) (v : Json) :
    Decode.fault (EmittedType.decode c.plans (.named name) v []) =
      Decode.fault (c.decode name v) :=
  (Outcome.fault_mapError Prod.fst _).trans (readsAlike plain v (.named name) rfl [])

/-- The decoder of an emitted type is the runtime's for the widened catalog: it accepts the same
values and rejects the others at the same path. So it accepts all that the catalog itself does. -/
theorem Catalog.emitted_decode (c : Catalog) (name : String) (v : Json) :
    Decode.fault (EmittedType.decode c.plans (.named name) v []) =
        Decode.fault (c.widen.decode name v) ∧
      ((c.decode name v).isOk = true →
        (EmittedType.decode c.plans (.named name) v []).isOk = true) := by
  have alike : Decode.fault (EmittedType.decode c.plans (.named name) v []) =
      Decode.fault (c.widen.decode name v) := by
    rw [← c.plans_widen]
    exact fault_decode_plans c.widen_widen name v
  refine ⟨alike, fun accepts => ?_⟩
  obtain ⟨d, read⟩ := Outcome.exists_of_isOk accepts
  obtain ⟨d', read'⟩ := Accepts.widen ⟨d, decode_eq_ok_iff.mp read⟩
  refine Outcome.fault_eq_none.mp (alike.trans (Outcome.fault_eq_none.mpr ?_))
  rw [decode_eq_ok_iff.mpr read']
  rfl

set_option maxRecDepth 100000 in
/-- A literal among a union's variants or an array's elements is told from other texts by the
runtime only, which moves the place of the first fault too. -/
theorem Catalog.emitted_differs :
    let text (l : String) : Json := .object [("const", .string l)]
    let integer : Json := .object [("type", .string "integer")]
    let cases : List (Json × Json × Option FieldPath × Option FieldPath) := [
      (.object [("oneOf", .array [text "a", integer])], .string "b", some [], none),
      (.object [
          ("properties", .object [
            ("x", .object [("items", text "a"), ("type", .string "array")]), ("y", integer)]),
          ("required", .array [.string "x", .string "y"]),
          ("type", .string "object")],
        .object [("x", .array [.string "b"]), ("y", .string "z")],
        some [.key "x", .index 0], some [.key "y"])]
    let bundle (t : Json) : Bundle :=
      ⟨[("a.json", (Json.object [("definitions", .object [("t", t)])]).render)]⟩
    ∀ p ∈ cases, ∃ g c, Graph.load (bundle p.1) = .ok g ∧ g.compile = .ok c ∧
      Decode.fault (c.decode "T" p.2.1) = p.2.2.1 ∧
      Decode.fault (EmittedType.decode c.plans (.named "T") p.2.1 []) = p.2.2.2 := by
  intro text integer cases bundle p mem
  have runs : (bundle p.1).compilesTo (fun _ c => decide (
      Decode.fault (c.decode "T" p.2.1) = p.2.2.1 ∧
      Decode.fault (EmittedType.decode c.plans (.named "T") p.2.1 []) = p.2.2.2)) = true := by
    rw [Bundle.compilesTo_eq]
    revert p
    decide +kernel
  obtain ⟨g, c, load, compile, h⟩ := Bundle.exists_of_compilesTo runs
  obtain ⟨runtime, emitted⟩ := of_decide_eq_true h
  exact ⟨g, c, load, compile, runtime, emitted⟩

end TypedArchive
