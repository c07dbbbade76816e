import Mathlib.Order.WellFoundedSet
import TypedArchive.Proofs.Catalog.Reaches
import TypedArchive.Proofs.Compile.Shape
import TypedArchive.Proofs.Compile.WellFormed
import TypedArchive.Proofs.Emit.Items

/-! Emitted types have a finite size: no type holds itself by value, over whichever other types. A
field that leads back to its record is held in a box, and aliases run in no circle. -/

namespace TypedArchive

namespace EmittedType

/-- What a variant holds for a payload: emitted types are held in boxes. -/
def payload : EmittedType → EmittedType
  | .named name => .boxed (.named name)
  | t => t

/-- A box, a list or a map keeps its contents elsewhere. -/
def isIndirect : EmittedType → Bool
  | .boxed _ | .list _ | .map _ => true
  | _ => false

/-- The emitted type that is named in a type. -/
def name? : EmittedType → Option String
  | .named name => some name
  | .boxed t | .list t | .map t => t.name?
  | _ => none

theorem payload_ne_named (t : EmittedType) (name : String) : t.payload ≠ .named name := by
  cases t <;> exact EmittedType.noConfusion

theorem ofRef_eq_named {t : TypeRef} {name : String} : ofRef t = .named name ↔ t = .named name := by
  cases t with
  | named other => simp [ofRef]
  | primitive p => cases p <;> simp [ofRef, ofPrimitive]
  | literal l => cases l <;> simp [ofRef, ofPrimitive, Literal.primitive]
  | array t => simp [ofRef]
  | map t => simp [ofRef]

/-- A field holds by value what does not lead back to its owner. -/
theorem ofField_eq_named {c : Catalog} {owner : String} {t : TypeRef} {name : String} :
    ofField c owner t = .named name ↔
      t = .named name ∧ name ≠ owner ∧ ¬Relation.TransGen c.Mentions name owner := by
  cases t with
  | named other =>
    simp only [ofField, ← Catalog.reaches_eq_true]
    split
    · next back => grind
    · next back => simp only [ofRef]; grind
  | _ => simp [ofField, ofRef_eq_named]

theorem eq_named_of_name? {t : EmittedType} {name : String} (named : t.name? = some name)
    (direct : t.isIndirect = false) : t = .named name := by
  cases t <;> simp_all [name?, isIndirect]

end EmittedType

namespace Catalog

/-- The types of what a value of an entry's emitted type is made of. -/
def positions (c : Catalog) (e : Entry) : List EmittedType :=
  match e.type with
  | .record fields => (fields.map fun f => .ofField c e.name f.type) ++ [.map .json]
  | .enumeration .. => []
  | .union _ variants => variants.map fun v => (EmittedType.ofRef v.type).payload
  | .array t => [.list (.ofRef t)]
  | .alias t => [.ofRef t]

/-- The emitted type of a name holds that of another name by value. -/
def Holds (c : Catalog) (name next : String) : Prop :=
  ∃ e, c.get? name = some e ∧ .named next ∈ c.positions e

/-- A path from one emitted type to another, each found in a position of the one before. -/
inductive Path (c : Catalog) : String → List EmittedType → String → Prop
  | here {name : String} : Path c name [] name
  | step {name next last : String} {e : Entry} {t : EmittedType} {ts : List EmittedType}
      (entry : c.get? name = some e) (mem : t ∈ c.positions e) (named : t.name? = some next)
      (rest : Path c next ts last) : Path c name (t :: ts) last

/-- A type has a finite size when all that it holds by value does. -/
inductive Sized (c : Catalog) : EmittedType → Prop
  | plain {t : EmittedType} (h : ∀ name, t ≠ .named name) : Sized c t
  | named {name : String} {e : Entry} (entry : c.get? name = some e)
      (each : ∀ t ∈ c.positions e, Sized c t) : Sized c (.named name)

end Catalog

namespace Emit

/-- The types of the fields and payloads of an item, or the type that it renames. -/
def Item.types : Item → List CodeType
  | .alias _ _ t => [t]
  | .struct _ _ fields => fields.map FieldItem.type
  | .enumeration _ _ variants => variants.filterMap VariantItem.payload
  | .implementation .. => []

theorem payloadCode_eq (t : EmittedType) : payloadCode t = t.payload.code := by
  cases t <;> rfl

theorem length_distinctNames (taken names : List String) :
    (distinctNames taken names).length = names.length := by
  induction names generalizing taken with
  | nil => rfl
  | cons name names ih => exact congrArg Nat.succ (ih _)

theorem length_fieldNames (fields : List Field) : (fieldNames fields).length = fields.length := by
  rw [fieldNames, length_distinctNames, List.length_map]

theorem length_unionNames (variants : List Variant) :
    (unionNames variants).length = variants.length := by
  rw [unionNames, length_distinctNames, List.length_map]

/-- The type of a struct's member is the type that its field is read as, or an option of it. -/
def HeldAs (code : CodeType) (t : EmittedType) : Prop :=
  code = t.code ∨ code = .path (.of ["Option"]) [t.code]

theorem heldAs_fieldItem (description : Option String) (member : String) (read : FieldRead) :
    HeldAs (fieldItem description member read).type read.type := by
  rw [fieldItem]
  cases read.optional
  · exact .inl rfl
  · exact .inr rfl

theorem types_recordItems (runtime : CodePath) (entry : String) (docs : List Attribute)
    {fields : List Field} {reads : List FieldRead} (length : reads.length = fields.length) :
    List.Forall₂ HeldAs ((recordItems runtime entry docs fields reads).flatMap Item.types)
      (reads.map FieldRead.type ++ [.map .json]) := by
  have types : (recordItems runtime entry docs fields reads).flatMap Item.types =
      (((fields.map fun f => f.description).zip ((fieldNames fields).zip reads)).map
        fun p => (fieldItem p.1 p.2.1 p.2.2).type) ++ [overflowItem.type] := by
    simp [recordItems, decodeItems, bindingItem, Item.types, Function.comp_def]
  rw [types]
  refine List.rel_append (List.forall₂_map_left_iff.mpr ?_) (.cons (.inl rfl) .nil)
  refine List.forall₂_map_right_iff.mpr (List.forall₂_iff_get.mpr ⟨?_, fun i hi hi' => ?_⟩)
  · simp [length, length_fieldNames]
  · simpa using heldAs_fieldItem _ _ _

theorem types_textEnumItems (runtime : CodePath) (entry : String) (docs : List Attribute)
    (variants : List (String × String)) :
    (textEnumItems runtime entry docs variants).flatMap Item.types = [] := by
  simp [textEnumItems, variantFunction, decodeItems, bindingItem, Item.types]

theorem types_literalEnumItems (runtime : CodePath) (entry : String) (docs : List Attribute)
    (variants : List (String × Literal)) :
    (literalEnumItems runtime entry docs variants).flatMap Item.types = [] := by
  rw [literalEnumItems]
  cases enumIntegers? (variants.map fun v => v.2) <;>
    simp [variantFunction, serializeItem, decodeItems, bindingItem, Item.types]

theorem types_unionItems (runtime : CodePath) (entry : String) (docs : List Attribute)
    (variants : List (String × EmittedType)) (body : List Statement) :
    (unionItems runtime entry docs variants body).flatMap Item.types =
      variants.map fun p => p.2.payload.code := by
  simp [unionItems, serializeItem, decodeItems, bindingItem, Item.types, List.filterMap_map,
    payloadCode_eq]

end Emit

namespace Catalog

variable {c : Catalog}

open Emit in
/-- The positions are what the emitted items are made of. -/
theorem positions_items {runtime : CodePath} {e : Entry} {emitted : List Item}
    (h : c.items runtime e = .ok emitted) :
    List.Forall₂ HeldAs (emitted.flatMap Item.types) (c.positions e) := by
  rw [positions]
  cases emits_of_items h with
  | @record fields type =>
    have length : (fields.map (c.fieldRead e.name)).length = fields.length := List.length_map _
    have types := types_recordItems runtime e.name (documentation e.description) length
    rw [type]
    rwa [List.map_map] at types
  | texts type =>
    rw [type, types_textEnumItems]
    exact .nil
  | literals type =>
    rw [type, types_literalEnumItems]
    exact .nil
  | «union» type body =>
    have second {xs : List String} {ts : List EmittedType} (length : xs.length = ts.length) :
        ((xs.zip ts).map fun p => p.2.payload.code) = ts.map fun t => t.payload.code := by
      conv_rhs => rw [← List.map_snd_zip (Nat.le_of_eq length.symm), List.map_map]
      rfl
    rw [type, types_unionItems, second (by simp [length_unionNames]), List.map_map]
    refine List.forall₂_map_left_iff.mpr (List.forall₂_map_right_iff.mpr ?_)
    exact List.forall₂_same.mpr fun v _ => .inl rfl
  | array type =>
    rw [type]
    exact .cons (.inl rfl) .nil
  | «alias» type =>
    rw [type]
    exact .cons (.inl rfl) .nil

/-- A type is held by value as the target of an alias, or as the type of a field that does not lead
back to its record. -/
theorem named_mem_positions {e : Entry} {next : String} : .named next ∈ c.positions e ↔
    e.type = .alias (.named next) ∨ ∃ fields, e.type = .record fields ∧ ∃ f ∈ fields,
      f.type = .named next ∧ next ≠ e.name ∧ ¬Relation.TransGen c.Mentions next e.name := by
  rw [positions]
  cases type : e.type with
  | record fields => simp [EmittedType.ofField_eq_named]
  | enumeration => simp
  | «union» discriminant variants => simp [EmittedType.payload_ne_named]
  | array t => simp
  | «alias» t =>
    simp only [List.mem_singleton, reduceCtorEq, false_and, exists_false, or_false,
      TypeDef.alias.injEq]
    rw [eq_comm, EmittedType.ofRef_eq_named]

theorem Holds.mentions {name next : String} (h : c.Holds name next) : c.Mentions name next := by
  obtain ⟨e, entry, mem⟩ := h
  refine ⟨e, entry, ?_⟩
  rcases named_mem_positions.mp mem with type | ⟨fields, type, f, listed, named, -⟩
  · rw [type]
    exact List.mem_cons_self
  · rw [type]
    exact List.mem_flatMap.mpr ⟨f, listed, by simp [named, TypeRef.namedRefs, TypeRef.namedRef?]⟩

/-- Where a type is held by value, it is what an alias stands for, or what a field holds that does
not lead back to its record. -/
theorem Holds.cases {name next : String} (keyed : c.Keyed) (h : c.Holds name next) :
    c.Passes name next ∨ next ≠ name ∧ ¬Relation.TransGen c.Mentions next name := by
  obtain ⟨e, entry, mem⟩ := h
  rcases named_mem_positions.mp mem with type | ⟨fields, -, f, -, -, away⟩
  · refine .inl ⟨e, entry, ?_⟩
    rw [type]
    exact ⟨rfl, List.mem_cons_self⟩
  · rw [keyed.name_eq entry] at away
    exact .inr away

end Catalog

/-- The steps of a circle that can each be turned back are all of one kind if the steps that can be
turned back are. -/
theorem Chain.transGen_of_back {α : Type} {r s : α → α → Prop}
    (turned : ∀ a b, r a b → Relation.ReflTransGen r b a → s a b) {a b : α}
    (h : Relation.TransGen r a b) (back : Relation.ReflTransGen r b a) :
    Relation.TransGen s a b := by
  induction h with
  | single first => exact .single (turned _ _ first back)
  | tail before last ih =>
    exact (ih (.head last back)).tail (turned _ _ last (back.trans before.to_reflTransGen))

namespace Catalog

variable {c : Catalog}

/-- No type holds itself by value: a circle would not go through a record, whose field would be
boxed, and so consist of aliases. -/
theorem not_holds_circle (keyed : c.Keyed)
    (grounded : ∀ name, ¬Relation.TransGen c.Passes name name) (name : String) :
    ¬Relation.TransGen c.Holds name name := by
  intro circle
  refine grounded name (Chain.transGen_of_back (fun a b holds back => ?_) circle .refl)
  rcases holds.cases keyed with passes | ⟨other, away⟩
  · exact passes
  · rcases Relation.reflTransGen_iff_eq_or_transGen.mp back with eq | back
    · exact absurd eq.symm other
    · exact absurd (Relation.TransGen.mono (fun _ _ => Holds.mentions) _ _ back) away

theorem Path.holds {name last : String} {ts : List EmittedType} (path : c.Path name ts last)
    (direct : ∀ t ∈ ts, t.isIndirect = false) : Relation.ReflTransGen c.Holds name last := by
  induction path with
  | here => exact .refl
  | step entry mem named rest ih =>
    rw [List.forall_mem_cons] at direct
    have holds := EmittedType.eq_named_of_name? named direct.1
    exact .head ⟨_, entry, holds ▸ mem⟩ (ih direct.2)

/-- A circle of emitted types goes through a box, a list or a map. -/
theorem Path.exists_indirect (circles : ∀ name, ¬Relation.TransGen c.Holds name name)
    {name : String} {ts : List EmittedType} (path : c.Path name ts name) (steps : ts ≠ []) :
    ∃ t ∈ ts, t.isIndirect = true := by
  by_contra none
  have direct (t) (mem : t ∈ ts) : t.isIndirect = false := by
    rw [Bool.eq_false_iff]
    exact fun indirect => none ⟨t, mem, indirect⟩
  cases path with
  | here => exact steps rfl
  | @step _ next _ e t ts entry mem named rest =>
    rw [List.forall_mem_cons] at direct
    have holds : c.Holds name next :=
      ⟨e, entry, EmittedType.eq_named_of_name? named direct.1 ▸ mem⟩
    exact circles name (.head' holds (rest.holds direct.2))

/-- Among finitely many entries, holding by value comes to an end where it runs in no circle. -/
theorem sized_of_no_circle (circles : ∀ name, ¬Relation.TransGen c.Holds name name)
    (mentions : ∀ name next, c.Mentions name next → c.contains next = true) {name : String}
    (found : c.contains name = true) : c.Sized (.named name) := by
  have order : IsStrictOrder String fun a b => Relation.TransGen c.Holds b a :=
    { irrefl := circles, trans := fun _ _ _ ab bc => bc.trans ab }
  have finite : {name | c.contains name = true}.Finite :=
    c.names.finite_toSet.subset fun name found => Assoc.contains_iff_mem_keys.mp found
  have ends : {name | c.contains name = true}.WellFoundedOn
      fun a b => Relation.TransGen c.Holds b a := finite.wellFoundedOn
  refine ends.induction (P := fun name => c.Sized (.named name)) found fun name found ih => ?_
  obtain ⟨e, entry⟩ := Assoc.contains_iff_exists.mp found
  refine .named entry fun t mem => ?_
  by_cases inside : ∃ next, t = .named next
  · obtain ⟨next, rfl⟩ := inside
    have holds : c.Holds name next := ⟨e, entry, mem⟩
    exact ih next (mentions name next holds.mentions) (.single holds)
  · exact .plain fun next eq => inside ⟨next, eq⟩

theorem contains_of_checkMentions (check : c.checkMentions = .ok ()) {name next : String}
    (h : c.Mentions name next) : c.contains next = true := by
  obtain ⟨e, entry, mem⟩ := h
  have passed := Outcome.forM_eq_ok.mp check e (List.mem_map_of_mem (Assoc.mem_of_get? entry))
  split at passed
  · cases passed
  · next none => simpa using List.find?_eq_none.mp none next mem

end Catalog

theorem Graph.validate_of_compile {g : Graph} {c : Catalog} (h : g.compile = .ok c) :
    c.checkMentions = .ok () ∧ c.checkCycles = .ok () := by
  rw [Graph.compile] at h
  obtain ⟨_, -, h⟩ := Outcome.bind_eq_ok.mp h
  obtain ⟨_, -, h⟩ := Outcome.bind_eq_ok.mp h
  obtain ⟨_, validate, eq⟩ := Outcome.bind_eq_ok.mp h
  cases eq
  obtain ⟨_, mentions, cycles⟩ := Outcome.bind_eq_ok.mp validate
  exact ⟨mentions, cycles⟩

/-- The types that are emitted for a compiled catalog, which are made of what stands in their
positions, have a finite size: none holds itself by value, each path from a type back to itself goes
through a box, a list or a map, and the values that a type holds by value nest to a finite depth. -/
theorem Graph.sized_of_compile {g : Graph} {c : Catalog} (compile : g.compile = .ok c) :
    (∀ runtime e emitted, c.items runtime e = .ok emitted →
      List.Forall₂ Emit.HeldAs (emitted.flatMap Emit.Item.types) (c.positions e)) ∧
      (∀ name, ¬Relation.TransGen c.Holds name name) ∧
      (∀ name ts, c.Path name ts name → ts ≠ [] → ∃ t ∈ ts, t.isIndirect = true) ∧
      ∀ name, c.contains name = true → c.Sized (.named name) := by
  obtain ⟨mentions, cycles⟩ := Graph.validate_of_compile compile
  have keyed := Compile.keyed_of_compile compile
  have circles := Catalog.not_holds_circle keyed (Catalog.grounded_of_checkCycles keyed cycles)
  have known (name next : String) (mention : c.Mentions name next) :=
    Catalog.contains_of_checkMentions mentions mention
  exact ⟨fun _ _ _ => Catalog.positions_items, circles,
    fun _ _ path steps => path.exists_indirect circles steps,
    fun _ found => Catalog.sized_of_no_circle circles known found⟩

set_option maxRecDepth 100000 in
/-- Two records that hold one another, the second by way of an alias: the field that names the alias
is boxed, the alias holds its record by value, and the path through all three ends at a box. -/
theorem Graph.sized_of_compile_mutual :
    let ref (name : String) : Json := .object [("$ref", .string ("#/definitions/" ++ name))]
    let record (next : String) : Json := .object [("properties", .object [("f", ref next)])]
    let schema : Json := .object [("definitions", .object [
      ("a", record "b"), ("b", ref "c"), ("c", record "a")])]
    ∃ g c, Graph.load ⟨[("s.json", schema.render)]⟩ = .ok g ∧ g.compile = .ok c ∧
      c.Holds "B" "C" ∧
      c.Path "A" [.boxed (.named "B"), .named "C", .boxed (.named "A")] "A" ∧
      (∀ name, ¬Relation.TransGen c.Holds name name) ∧ c.Sized (.named "B") := by
  intro ref record schema
  let expected : List (String × List EmittedType) := [
    ("A", [.boxed (.named "B"), .map .json]), ("B", [.named "C"]),
    ("C", [.boxed (.named "A"), .map .json])]
  have runs : Bundle.compilesTo ⟨[("s.json", schema.render)]⟩ (fun _ c => decide
      (∀ p ∈ expected, (c.get? p.1).map c.positions = some p.2)) = true := by
    rw [Bundle.compilesTo_eq]
    decide +kernel
  obtain ⟨g, c, load, compile, h⟩ := Bundle.exists_of_compilesTo runs
  have held := of_decide_eq_true h
  simp only [expected, List.forall_mem_cons, List.not_mem_nil, false_implies, implies_true,
    and_true, Option.map_eq_some_iff] at held
  obtain ⟨⟨first, firstEntry, firstHolds⟩, ⟨same, sameEntry, sameHolds⟩,
    ⟨last, lastEntry, lastHolds⟩⟩ := held
  obtain ⟨-, circles, -, sized⟩ := Graph.sized_of_compile compile
  refine ⟨g, c, load, compile, ⟨same, sameEntry, by simp [sameHolds]⟩, ?_, circles,
    sized _ (Assoc.contains_iff_exists.mpr ⟨same, sameEntry⟩)⟩
  refine .step firstEntry (by simp [firstHolds]) rfl ?_
  refine .step sameEntry (by simp [sameHolds]) rfl ?_
  exact .step lastEntry (by simp [lastHolds]) rfl .here

end TypedArchive
