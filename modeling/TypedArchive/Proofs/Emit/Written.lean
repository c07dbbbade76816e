import TypedArchive.Emit.Written
import TypedArchive.Proofs.Emit.Dispatch

/-! What the serializers of emitted items write: the members of a record under their keys with the
overflow among them, and the members of an enum and the payloads of a union as they are. -/

namespace TypedArchive.Emit

variable {runtime : CodePath}

/-- Whether the attributes of an item name a key for the serializer is seen without its
documentation. -/
theorem serdeKeys_documentation (description : Option String) (rest : List Attribute) :
    serdeKeys (documentation description ++ rest) = serdeKeys rest := by
  rw [serdeKeys, List.flatMap_append]
  cases description with
  | none => rfl
  | some s => simp [documentation, serdeKeys, List.flatMap_map]

theorem derivesSerialize_derive (docs : List Attribute) (traits : List CodePath) :
    derivesSerialize (docs ++ [.derive (.of ["serde", "Serialize"] :: traits)]) = true := by
  simp [derivesSerialize]

section Record

variable {members : List (String × Option Json)} {overflow : Assoc Json}

theorem written_overflowItem : overflowItem.written members overflow = some overflow := rfl

/-- A member is written under its key; one that is absent is left out where it may be. -/
theorem written_fieldItem {description : Option String} {member : String} {read : FieldRead}
    {value : Option Json} (held : members.lookup (identifier member) = some value)
    (optional : value = none → read.optional = true) :
    (fieldItem description member read).written members overflow =
      some (value.toList.map fun v => (read.key, v)) := by
  rw [FieldItem.written, fieldItem]
  dsimp only
  rw [serdeKeys_documentation, held, writtenName, serdeKeys_documentation]
  cases value with
  | none =>
    rw [optional rfl]
    rfl
  | some v => cases read.optional <;> rfl

variable {declared : List Field} {read : Field → FieldRead} {docs : List Attribute} {entry : String}

/-- The fields of a record with the names of their members. -/
def named (declared : List Field) : List (String × Field) := (fieldNames declared).zip declared

theorem map_snd_named (declared : List Field) : (named declared).map Prod.snd = declared :=
  List.map_snd_zip (Nat.le_of_eq (length_fieldNames declared).symm)

/-- Whatever is made of the fields stands beside their names in the same order. -/
theorem zip_fieldNames {α : Type} (declared : List Field) (f : Field → α) :
    (fieldNames declared).zip (declared.map f) = (named declared).map fun p => (p.1, f p.2) := by
  rw [List.zip_map_right]
  rfl

theorem fields_recordItems :
    (((declared.map fun f => f.description).zip
      ((fieldNames declared).zip (declared.map read))).map
        fun p => fieldItem p.1 p.2.1 p.2.2) =
      (named declared).map fun p => fieldItem p.2.description p.1 (read p.2) := by
  have descriptions : declared.map (fun f => f.description) =
      (named declared).map fun p => p.2.description := by
    conv_lhs => rw [← map_snd_named declared, List.map_map]
    rfl
  rw [zip_fieldNames, descriptions, List.zip_map', List.map_map]
  rfl

theorem declared_recordItems (runtime : CodePath) {item : Item}
    (first : (recordItems runtime entry docs declared (declared.map read)).head? = some item) :
    item.declared = ((named declared).map fun p => identifier p.1) ++ [overflowName] := by
  cases first
  rw [Item.declared, fields_recordItems, List.map_append, List.map_map]
  rfl

theorem readMembers_recordItems :
    readMembers (recordItems runtime entry docs declared (declared.map read)) =
      some ((named declared).map fun p => identifier p.1) := by
  have body : bodyOf? (recordItems runtime entry docs declared (declared.map read)) "decode_at" =
      some [.bind (!(declared.map read).isEmpty) "reader" (.orReturn
          (.call (.path (runtime.binding ["RecordReader", "new"])) [name "value", name "path"])),
        .result (okExpr (.record (.of ["Self"])
          ((((fieldNames declared).zip (declared.map read)).map fun p =>
            (identifier p.1, readExpr p.2)) ++
            [(overflowName, .method (name "reader") "finish" [])])))] := rfl
  rw [readMembers, body, zip_fieldNames]
  simp [okExpr, readExpr, List.filterMap_append, List.filterMap_map, Function.comp_def]

theorem serialize_recordItems {values : Field → Option Json}
    (distinct : ((named declared).map fun p => identifier p.1).Nodup)
    (optional : ∀ f ∈ declared, values f = none → (read f).optional = true) :
    serialize (recordItems runtime entry docs declared (declared.map read))
        (.struct (((named declared).map fun p => identifier p.1).zip (declared.map values))
          overflow) =
      some (.object (Assoc.ofList ((declared.flatMap fun f =>
        (values f).toList.map fun v => ((read f).key, v)) ++ overflow))) := by
  have members : ((named declared).map fun p => identifier p.1).zip (declared.map values) =
      (named declared).map fun p => (identifier p.1, values p.2) := by
    conv_lhs => rw [← map_snd_named declared, List.map_map, map_snd_named, List.zip_map']
    rfl
  have each : List.Forall₂ (fun f pairs => f.written
        ((named declared).map fun p => (identifier p.1, values p.2)) overflow = some pairs)
      (((named declared).map fun p => fieldItem p.2.description p.1 (read p.2)) ++ [overflowItem])
      (((named declared).map fun p =>
        (values p.2).toList.map fun v => ((read p.2).key, v)) ++ [overflow]) := by
    refine List.rel_append (List.forall₂_map_left_iff.mpr (List.forall₂_map_right_iff.mpr ?_))
      (.cons written_overflowItem .nil)
    refine List.forall₂_same.mpr fun p mem => written_fieldItem ?_ (optional p.2 ?_)
    · refine Assoc.get?_of_mem ?_ (List.mem_map_of_mem mem)
      rwa [Assoc.keys, List.map_map]
    · exact map_snd_named declared ▸ List.mem_map_of_mem mem
  have pairs : ((named declared).map fun p =>
      (values p.2).toList.map fun v => ((read p.2).key, v)).flatten =
      declared.flatMap fun f => (values f).toList.map fun v => ((read f).key, v) := by
    conv_rhs => rw [← map_snd_named declared, List.flatMap_map]
    exact List.flatMap_def.symm
  have noBody : bodyOf? (recordItems runtime entry docs declared (declared.map read)) "serialize" =
      none := rfl
  rw [serialize, noBody, recordItems, members, fields_recordItems]
  simp only [List.cons_append, List.findSome?_cons, Item.derived, derivesSerialize_derive,
    Outcome.mapM_eq_some.mpr each, Option.bind_eq_bind, Option.bind_some, Option.pure_def,
    List.flatten_append, pairs, List.flatten_singleton]

end Record

theorem length_enumNames (values : List Literal) (descriptions : List String) :
    (enumNames values descriptions).length = values.length := by
  rw [enumNames, length_distinctNames]
  split
  · next same => rw [List.length_map, same]
  · rw [List.length_map]

/-- What the variants of an enum are paired with is kept, in order. -/
theorem map_snd_enumVariants {α : Type} (values : List Literal) (descriptions : List String)
    {xs : List α} (length : xs.length = values.length) :
    (((enumNames values descriptions).map identifier).zip xs).map Prod.snd = xs := by
  refine List.map_snd_zip (Nat.le_of_eq ?_)
  rw [length, List.length_map, length_enumNames]

section Enumeration

variable {docs : List Attribute} {entry variant : String}

theorem find?_of_mem {α : Type} {pairs : List (String × α)} {key : String} {a : α}
    (distinct : (pairs.map Prod.fst).Nodup) (mem : (key, a) ∈ pairs) :
    pairs.find? (fun p => p.1 == key) = some (key, a) := by
  induction pairs with
  | nil => cases mem
  | cons p pairs ih =>
    obtain ⟨fresh, distinct⟩ := List.nodup_cons.mp distinct
    rw [List.find?_cons]
    rcases List.mem_cons.mp mem with rfl | mem
    · simp
    · have other : (p.1 == key) = false := by
        rw [beq_eq_false_iff_ne]
        intro eq
        exact fresh (eq ▸ List.mem_map_of_mem mem)
      rw [other]
      exact ih distinct mem

section Text

variable {variants : List (String × String)} {s : String}

/-- The reading of the text that an enum of texts goes by. -/
def textRead (runtime : CodePath) : Expr :=
  .call (.traitItem textType (runtime.binding ["DecodeJson"]) "decode_at")
    [name "value", name "path"]

/-- What an enum of texts makes of each text. -/
def textArms (runtime : CodePath) (entry : String) (variants : List (String × String)) :
    List (Pattern × Expr) :=
  (variants.map fun p => (Pattern.text p.2, okExpr (.path (selfVariant p.1)))) ++
    [(.wildcard, unknownValue runtime entry)]

theorem fallible_textRead (path : FieldPath) :
    fallible runtime (bodyScope (.string s) path) (textRead runtime) = some (.ok (.text s)) := by
  rw [textRead, textType, plainType, fallible, if_pos ⟨rfl, rfl⟩]
  rfl

theorem find?_textArms (runtime : CodePath) (entry : String) (mem : s ∈ variants.map Prod.snd) :
    ∃ variant, (variant, s) ∈ variants ∧
      (textArms runtime entry variants).find? (fun arm => arm.1.fits s) =
        some (.text s, okExpr (.path (selfVariant variant))) := by
  obtain ⟨p, listed, rfl⟩ := List.mem_map.mp mem
  have some : (variants.find? fun q => p.2 == q.2).isSome :=
    List.find?_isSome.mpr ⟨p, listed, beq_self_eq_true p.2⟩
  obtain ⟨q, found⟩ := Option.isSome_iff_exists.mp some
  have same : p.2 = q.2 := by simpa using List.find?_some found
  refine ⟨q.1, same ▸ List.mem_of_find?_eq_some found, ?_⟩
  have first : (variants.map fun q => (Pattern.text q.2, okExpr (.path (selfVariant q.1)))).find?
      (fun arm => arm.1.fits p.2) = .some (.text p.2, okExpr (.path (selfVariant q.1))) := by
    rw [List.find?_map, same]
    rw [same] at found
    exact congrArg (Option.map _) found
  rw [textArms, List.find?_append, first, Option.some_or]

/-- A text is read as the first variant for it. -/
theorem variantOf_textEnumItems (runtime : CodePath) (entry : String) (docs : List Attribute)
    (mem : s ∈ variants.map Prod.snd) :
    ∃ variant, (variant, s) ∈ variants ∧
      variantOf runtime (textEnumItems runtime entry docs variants) (.string s) = some variant := by
  have body : bodyOf? (textEnumItems runtime entry docs variants) "decode_at" =
      some [.bind false "s" (.orReturn (textRead runtime)),
        .result (.choice (.method (name "s") "as_str" []) (textArms runtime entry variants))] := rfl
  have shown (path : FieldPath) : (Expr.method (name "s") "as_str" []).eval
      (("s", .text s) :: bodyScope (.string s) path) = some (.text s) := rfl
  obtain ⟨variant, listed, arm⟩ := find?_textArms runtime entry mem
  refine ⟨variant, listed, ?_⟩
  rw [variantOf, body, Option.bind_eq_bind, Option.bind_some, Literal.toJson, runBody,
    fallible_textRead]
  dsimp only
  rw [runBody, conclude, shown]
  dsimp only
  rw [arm]
  rfl

theorem serialize_textEnumItems (distinct : (variants.map Prod.fst).Nodup)
    (mem : (variant, s) ∈ variants) :
    serialize (textEnumItems runtime entry docs variants) (.unit variant) = some (.string s) := by
  have noBody : bodyOf? (textEnumItems runtime entry docs variants) "serialize" = none := rfl
  rw [serialize, noBody, textEnumItems]
  simp only [List.cons_append, List.findSome?_cons, Item.derived, derivesSerialize_derive,
    List.find?_map, Function.comp_def, find?_of_mem distinct mem]
  rfl

end Text

section Literals

variable {variants : List (String × Literal)} {l : Literal}

/-- A literal is read as the first variant for it. -/
theorem runBody_literalTests (runtime : CodePath) (mem : l ∈ variants.map Prod.snd)
    (rest : List Statement) :
    ∃ variant, (variant, l) ∈ variants ∧
      runBody runtime (bodyScope l.toJson []) ((variants.map fun p =>
        .returnIf (.binary (.deref (name "value")) "==" (literalExpr p.2))
          (okExpr (.path (selfVariant p.1)))) ++ rest) =
        some (.ok (okExpr (.path (selfVariant variant)))) := by
  induction variants with
  | nil => cases mem
  | cons p variants ih =>
    have test : (Expr.binary (.deref (name "value")) "==" (literalExpr p.2)).eval
        (bodyScope l.toJson []) = some (.flag (l.toJson.same p.2.toJson)) := by
      have value : (Expr.deref (name "value")).eval (bodyScope l.toJson []) =
          some (.json l.toJson) := rfl
      rw [Expr.eval, value, eval_literalExpr]
      rfl
    rw [List.map_cons, List.cons_append, runBody, test, Json.same_toJson, Literal.accepts,
      Literal.ofJson?_toJson]
    by_cases same : p.2 = l
    · subst same
      refine ⟨p.1, List.mem_cons_self, ?_⟩
      rw [beq_self_eq_true]
      rfl
    · have other : (some l == some p.2) = false := by simpa using Ne.symm same
      have later := List.mem_of_ne_of_mem (Ne.symm same) mem
      obtain ⟨variant, listed, result⟩ := ih later
      refine ⟨variant, List.mem_cons_of_mem p listed, ?_⟩
      rw [other]
      exact result

theorem variantOf_literalEnumItems (runtime : CodePath) (entry : String) (docs : List Attribute)
    (mem : l ∈ variants.map Prod.snd) :
    ∃ variant, (variant, l) ∈ variants ∧
      variantOf runtime (literalEnumItems runtime entry docs variants) l = some variant := by
  have body : bodyOf? (literalEnumItems runtime entry docs variants) "decode_at" =
      some ((variants.map fun p => .returnIf
        (.binary (.deref (name "value")) "==" (literalExpr p.2))
        (okExpr (.path (selfVariant p.1)))) ++ [.result (unknownValue runtime entry)]) := by
    rw [literalEnumItems]
    cases enumIntegers? (variants.map fun v => v.2) <;> rfl
  obtain ⟨variant, listed, result⟩ :=
    runBody_literalTests runtime mem [.result (unknownValue runtime entry)]
  refine ⟨variant, listed, ?_⟩
  rw [variantOf, body, Option.bind_eq_bind, Option.bind_some, result]
  rfl

theorem selfVariant_inj {a b : String} : selfVariant a = selfVariant b ↔ a = b := by
  simp [selfVariant, CodePath.of]

/-- The arms of a function that gives each variant its own result. -/
theorem lookup_arms {α : Type} (pairs : List (String × α)) (result : α → Expr) (variant : String) :
    (pairs.map fun p => (Pattern.path (selfVariant p.1), result p.2)).lookup
      (.path (selfVariant variant)) = (Assoc.get? pairs variant).map result := by
  induction pairs with
  | nil => rfl
  | cons p pairs ih =>
    have same : (Pattern.path (selfVariant variant) == .path (selfVariant p.1)) =
        (variant == p.1) := by
      rw [Bool.eq_iff_iff, beq_iff_eq, beq_iff_eq, Pattern.path.injEq, selfVariant_inj]
    rw [List.map_cons, List.lookup_cons, same, ih, Assoc.get?, Assoc.get?, List.lookup_cons]
    cases variant == p.1 <;> rfl

theorem armValue_of_mem (distinct : (variants.map Prod.fst).Nodup) (mem : (variant, l) ∈ variants)
    (e : Expr) : armValue variant [.result (.choice e (variants.map fun p =>
      (.path (selfVariant p.1), literalExpr p.2)))] = some l.toJson := by
  have arm : (variants.map fun p => (Pattern.path (selfVariant p.1), literalExpr p.2)).lookup
      (.path (selfVariant variant)) = some (literalExpr l) := by
    rw [lookup_arms variants literalExpr, Assoc.get?_of_mem distinct mem, Option.map_some]
  rw [armValue, arm, Option.bind_eq_bind, Option.bind_some, eval_literalExpr]

theorem serialize_literalEnumItems (distinct : (variants.map Prod.fst).Nodup)
    (mem : (variant, l) ∈ variants) :
    serialize (literalEnumItems runtime entry docs variants) (.unit variant) = some l.toJson := by
  have body : bodyOf? (literalEnumItems runtime entry docs variants) "serialize" =
      some [.result (serializeCall (.borrow (.method (name "self") "to_value" [])))] := by
    rw [literalEnumItems]
    cases enumIntegers? (variants.map fun v => v.2) <;> rfl
  have toValue : bodyOf? (literalEnumItems runtime entry docs variants) "to_value" =
      some [.result (.choice (name "self") (variants.map fun p =>
        (.path (selfVariant p.1), literalExpr p.2)))] := rfl
  have handsOn : implemented (literalEnumItems runtime entry docs variants) (.unit variant)
      (serializeCall (.borrow (.method (name "self") "to_value" []))) =
      (bodyOf? (literalEnumItems runtime entry docs variants) "to_value" >>= armValue variant) := by
    simp only [implemented, serializeCall, serializePath, if_true]
  rw [serialize, body]
  dsimp only
  rw [handsOn, toValue, Option.bind_eq_bind, Option.bind_some, armValue_of_mem distinct mem]

end Literals

end Enumeration

section Union

variable {docs : List Attribute} {entry variant : String} {variants : List (String × EmittedType)}
  {body : List Statement}

theorem declaredVariants_unionItems (runtime : CodePath) (entry : String) (docs : List Attribute)
    (variants : List (String × EmittedType)) (body : List Statement) :
    (declaredVariants (unionItems runtime entry docs variants body)).map (fun w => w.name) =
      variants.map Prod.fst := by
  simp [declaredVariants, unionItems]

/-- At the index of each variant an item is declared under the name of a variant. -/
theorem exists_declaredVariant (runtime : CodePath) (entry : String) (docs : List Attribute)
    (body : List Statement) {index : Nat} (lt : index < variants.length) : ∃ item,
      (declaredVariants (unionItems runtime entry docs variants body))[index]? = some item ∧
        item.name ∈ variants.map Prod.fst := by
  have names := declaredVariants_unionItems runtime entry docs variants body
  have length := congrArg List.length names
  rw [List.length_map, List.length_map] at length
  refine ⟨_, List.getElem?_eq_getElem (length ▸ lt), ?_⟩
  rw [← names]
  exact List.mem_map_of_mem (List.getElem_mem _)

/-- The payload of a variant is written as it is. -/
theorem serialize_unionItems (mem : variant ∈ variants.map Prod.fst) (v : Json) :
    serialize (unionItems runtime entry docs variants body) (.payload variant v) = some v := by
  have body : bodyOf? (unionItems runtime entry docs variants body) "serialize" =
      some [.result (.choice (name "self") (variants.map fun p =>
        (.payload (selfVariant p.1) "inner", serializeCall (name "inner"))))] := rfl
  obtain ⟨p, listed, rfl⟩ := List.mem_map.mp mem
  rw [serialize, body]
  simp only [implemented, serializeCall, serializePath, name, List.findSome?_map, Function.comp_def,
    selfVariant_inj, and_true]
  have some : (variants.findSome? fun x => if x.1 = p.1 then some v else none).isSome :=
    List.findSome?_isSome_iff.mpr ⟨p, listed, by rw [if_pos rfl]; rfl⟩
  obtain ⟨w, found⟩ := Option.isSome_iff_exists.mp some
  obtain ⟨x, -, arm⟩ := List.exists_of_findSome?_eq_some found
  split at arm
  · exact found.trans arm.symm
  · cases arm

end Union

end TypedArchive.Emit

namespace TypedArchive

open Emit

theorem Catalog.declared_nodup {c : Catalog} {runtime : CodePath}
    (unclashed : c.unclashed runtime = true) {name : String} {e : Entry}
    (entry : c.get? name = some e) {items : List Item} (emitted : c.items runtime e = .ok items)
    {item : Item} (mem : item ∈ items) : item.declared.Nodup := by
  have each := List.all_eq_true.mp unclashed e (List.mem_map_of_mem (Assoc.mem_of_get? entry))
  rw [emitted] at each
  exact of_decide_eq_true (List.all_eq_true.mp each item mem)

end TypedArchive
