import TypedArchive.Proofs.Compile.Spelling
import TypedArchive.Proofs.Emit.Identifier
import TypedArchive.Proofs.Emit.Written

/-! When the members of emitted types have names of their own. The names are made distinct before
they become identifiers, and identifiers keep apart only what is spelled in ASCII and not empty. -/

namespace TypedArchive

namespace Emit

/-- A text that an identifier can spell: not empty, and in ASCII. -/
structure Legible (s : String) : Prop where
  nonempty : s ≠ ""
  ascii : ∀ c ∈ s.toList, c.toNat < 128

instance (s : String) : Decidable (Legible s) :=
  decidable_of_iff (s ≠ "" ∧ (s.toList.all fun c => c.toNat < 128) = true)
    ⟨fun h => ⟨h.1, by simpa using h.2⟩, fun h => ⟨h.1, by simpa using h.2⟩⟩

/-- The name that the member for a key asks for: that of the overflow member is not free. -/
def memberName (key : String) : String :=
  let name := Text.snakeCase key
  if name = overflowName then overflowName ++ "_field" else name

end Emit

/-- The names that the members of a type ask for, in order. -/
def TypeDef.spellings : TypeDef → List String
  | .record fields => (fields.map fun f => Emit.memberName f.name) ++ [Emit.overflowName]
  | .enumeration values descriptions =>
    if descriptions.length = values.length then descriptions.map Emit.variantName
    else values.map Emit.literalName
  | .union _ variants => variants.map fun v => Emit.payloadName v.type
  | .array _ | .alias _ => []

/-- The identifiers that the members of a type get, in order. -/
def TypeDef.identifiers : TypeDef → List String
  | .record fields => (Emit.fieldNames fields).map Emit.identifier ++ [Emit.overflowName]
  | .enumeration values descriptions => (Emit.enumNames values descriptions).map Emit.identifier
  | .union _ variants => (Emit.unionNames variants).map Emit.identifier
  | .array _ | .alias _ => []

namespace Emit

open Text

/-- A spelling whose characters beyond ASCII are not looked at: letters, digits and underscores,
with no underscore at the end and a first character of a kind. -/
structure Spelled (start : Char → Prop) (s : String) : Prop where
  characters : ∀ c ∈ s.toList, Wordlike c ∨ c = '_'
  first : ∀ c ∈ s.toList.head?, start c
  last : ∀ c ∈ s.toList.getLast?, c ≠ '_'

section Spelled

variable {start : Char → Prop} {s : String}

theorem Spelled.tidy (h : Spelled start s) (legible : Legible s) : Tidy s where
  nonempty := legible.nonempty
  characters c mem := (h.characters c mem).imp_left fun wordlike => wordlike (legible.ascii c mem)
  last := h.last

/-- A text without underscores. -/
theorem spelled_of_wordlike (h : ∀ c ∈ s.toList, Wordlike c)
    (first : ∀ c ∈ s.toList.head?, start c) : Spelled start s where
  characters c mem := .inl (h c mem)
  first := first
  last c mem := (h c (List.mem_of_getLast? mem)).ne_underscore

theorem head?_append {a b : String} (nonempty : a ≠ "") :
    (a ++ b).toList.head? = a.toList.head? := by
  rw [String.toList_append, List.head?_append_of_ne_nil]
  exact fun eq => nonempty (String.toList_inj.mp eq)

theorem GivenFor.tidy {given : String} (h : GivenFor given s) (tidy : Tidy s) : Tidy given := by
  rcases h with rfl | ⟨k, rfl⟩
  · exact tidy
  · exact tidy.append_toString k

theorem GivenFor.head? {given : String} (h : GivenFor given s) (nonempty : s ≠ "") :
    given.toList.head? = s.toList.head? := by
  rcases h with rfl | ⟨k, rfl⟩
  · rfl
  · exact head?_append nonempty

end Spelled

/-- Distinct names that are given for legible spellings have distinct identifiers. -/
theorem pairwise_identifiers (start : Char → Prop)
    (separate : start '_' → ∀ c, start c → c.isDigit = false) {names bases : List String}
    (given : List.Forall₂ GivenFor names bases) (distinct : names.Nodup)
    (spelled : ∀ s ∈ bases, Spelled start s) :
    ((names.map identifier).zip bases).Pairwise fun p q =>
      Legible p.2 → Legible q.2 → p.1 ≠ q.1 := by
  have eq : (names.map identifier).zip bases = (names.zip bases).map (Prod.map identifier id) := by
    rw [List.zip_map_left]
  rw [eq, List.pairwise_map]
  have apart : (names.zip bases).Pairwise fun p q => p.1 ≠ q.1 := by
    rw [← List.pairwise_map (f := Prod.fst) (R := (· ≠ ·)),
      List.map_fst_zip (Nat.le_of_eq given.length_eq)]
    exact distinct
  -- The name that is given for a legible spelling is one that identifiers keep apart.
  have kept {p : String × String} (mem : p ∈ names.zip bases) (legible : Legible p.2) :
      p.1 ∈ {s | Tidy s ∧ ∀ c ∈ s.toList.head?, start c} := by
    have named : GivenFor p.1 p.2 := List.forall₂_zip given mem
    have spelled := spelled p.2 (List.of_mem_zip mem).2
    refine ⟨named.tidy (spelled.tidy legible), ?_⟩
    rw [named.head? legible.nonempty]
    exact spelled.first
  refine apart.imp_of_mem fun {p q} hp hq ne legible legible' eq => ne ?_
  exact identifier_injOn start separate (kept hp legible) (kept hq legible') eq

section Fields

theorem fieldNames_eq (fields : List Field) :
    fieldNames fields = distinctNames [] (fields.map fun f => memberName f.name) := rfl

theorem memberName_ne (key : String) : memberName key ≠ overflowName := by
  rw [memberName]
  split
  · decide
  · next ne => exact ne

theorem spelled_memberName (key : String) : Spelled (· ≠ '_') (memberName key) := by
  rw [memberName]
  split
  · exact ⟨by simp [overflowName, Wordlike], by simp [overflowName], by simp [overflowName]⟩
  · exact ⟨fun _ => wordlike_of_mem_snakeCase,
      fun _ mem => (wordlike_of_head?_snakeCase mem).ne_underscore,
      fun _ mem => (wordlike_of_getLast?_snakeCase mem).ne_underscore⟩

theorem spelled_overflowName : Spelled (· ≠ '_') overflowName :=
  ⟨by simp [overflowName, Wordlike], by simp [overflowName], by simp [overflowName]⟩

theorem GivenFor.ne_overflowName {given key : String} (h : GivenFor given (memberName key)) :
    given ≠ overflowName := by
  rcases h with rfl | ⟨k, rfl⟩
  · exact memberName_ne key
  · -- The name of the overflow member does not end in a digit.
    intro eq
    have last : 'a' ∈ (memberName key ++ toString k).toList.getLast? := by
      rw [eq]
      simp [overflowName]
    exact absurd (isDigit_of_getLast? last) (by decide)

theorem overflowName_not_mem (fields : List Field) : overflowName ∉ fieldNames fields := by
  rw [fieldNames_eq]
  have given := distinctNames_givenFor [] (fields.map fun f => memberName f.name)
  intro mem
  obtain ⟨i, lt, eq⟩ := List.getElem_of_mem mem
  have named := given.get lt (given.length_eq ▸ lt)
  rw [List.get_eq_getElem, List.get_eq_getElem, List.getElem_map] at named
  exact named.ne_overflowName eq

theorem pairwise_record (fields : List Field) :
    ((TypeDef.record fields).identifiers.zip (TypeDef.record fields).spellings).Pairwise fun p q =>
      Legible p.2 → Legible q.2 → p.1 ≠ q.1 := by
  have given : List.Forall₂ GivenFor (fieldNames fields ++ [overflowName])
      (TypeDef.record fields).spellings := by
    rw [fieldNames_eq]
    exact List.rel_append (distinctNames_givenFor [] _) (.cons (.inl rfl) .nil)
  have distinct : (fieldNames fields ++ [overflowName]).Nodup := by
    refine List.Nodup.append ?_ (List.nodup_singleton _)
      (List.disjoint_singleton.mpr (overflowName_not_mem fields))
    rw [fieldNames_eq]
    exact (distinctNames_nodup [] _).1
  have spelled (s) (mem : s ∈ (TypeDef.record fields).spellings) : Spelled (· ≠ '_') s := by
    rw [TypeDef.spellings, List.mem_append, List.mem_map, List.mem_singleton] at mem
    rcases mem with ⟨f, -, rfl⟩ | rfl
    · exact spelled_memberName f.name
    · exact spelled_overflowName
  have identifiers : (TypeDef.record fields).identifiers =
      (fieldNames fields ++ [overflowName]).map identifier := by
    rw [TypeDef.identifiers, List.map_append]
    rfl
  rw [identifiers]
  exact pairwise_identifiers (· ≠ '_') (fun underscore => absurd rfl underscore) given distinct
    spelled

end Fields

section Variants

theorem wordlike_of_isDigit {c : Char} (h : c.isDigit = true) : Wordlike c :=
  fun _ => by simp [Char.isAlphanum, h]

theorem spelled_variantName (s : String) : Spelled (·.isDigit = false) (variantName s) := by
  have wordlike (c) (mem : c ∈ (pascalCase s).toList) := wordlike_of_mem_pascalCase mem
  rw [variantName]
  split
  · exact ⟨by simp [Wordlike], by simp, by simp⟩
  · next c rest list =>
    split
    · next digit =>
      have list' : ("_" ++ pascalCase s).toList = '_' :: (pascalCase s).toList := by
        simp [String.toList_append]
      refine ⟨fun d mem => ?_, fun d mem => ?_, fun d mem => ?_⟩
      · rw [list', List.mem_cons] at mem
        exact mem.elim .inr fun mem => .inl (wordlike d mem)
      · rw [list', List.head?_cons, Option.mem_some] at mem
        subst mem
        decide
      · rw [list', List.getLast?_cons_of_ne_nil (by simp [list])] at mem
        exact (wordlike d (List.mem_of_getLast? mem)).ne_underscore
    · next start =>
      refine spelled_of_wordlike wordlike fun d mem => ?_
      rw [list, List.head?_cons, Option.mem_some] at mem
      exact mem ▸ Bool.not_eq_true _ ▸ start

theorem spelled_literalName (l : Literal) : Spelled (·.isDigit = false) (literalName l) := by
  have numbered (word : String) (wordlike : ∀ c ∈ word.toList, Wordlike c) (nonempty : word ≠ "")
      (start : ∀ c ∈ word.toList.head?, c.isDigit = false) (n : Nat) :
      Spelled (·.isDigit = false) (word ++ toString n) := by
    refine spelled_of_wordlike (fun c mem => ?_) fun c mem => ?_
    · rw [String.toList_append, List.mem_append] at mem
      exact mem.elim (wordlike c) fun mem =>
        wordlike_of_isDigit (Text.isDigit_of_mem_toString mem)
    · rw [head?_append nonempty] at mem
      exact start c mem
  cases l with
  | string s => exact spelled_variantName s
  | integer i =>
    rw [literalName]
    split
    · exact numbered "ValueMinus" (by simp [Wordlike]) (by simp) (by simp) _
    · next nonnegative =>
      obtain ⟨n, eq⟩ := Int.eq_ofNat_of_zero_le (Int.not_lt.mp nonnegative)
      rw [eq]
      exact numbered "Value" (by simp [Wordlike]) (by simp) (by simp) n
  | boolean b =>
    cases b <;>
      exact ⟨by simp [literalName, Wordlike], by simp [literalName], by simp [literalName]⟩
  | null => exact ⟨by simp [literalName, Wordlike], by simp [literalName], by simp [literalName]⟩

theorem pairwise_enumeration (values : List Literal) (descriptions : List String) :
    ((TypeDef.enumeration values descriptions).identifiers.zip
      (TypeDef.enumeration values descriptions).spellings).Pairwise fun p q =>
        Legible p.2 → Legible q.2 → p.1 ≠ q.1 := by
  refine pairwise_identifiers (·.isDigit = false) (fun _ _ => id)
    (distinctNames_givenFor [] _) (distinctNames_nodup [] _).1 fun s mem => ?_
  rw [TypeDef.spellings] at mem
  split at mem
  · obtain ⟨description, -, rfl⟩ := List.mem_map.mp mem
    exact spelled_variantName description
  · obtain ⟨l, -, rfl⟩ := List.mem_map.mp mem
    exact spelled_literalName l

theorem wordlike_of_mem_typeName {p : Primitive} {c : Char} (mem : c ∈ p.typeName.toList) :
    Wordlike c := by
  have each : ∀ c ∈ p.typeName.toList, Wordlike c := by
    cases p <;> simp [Primitive.typeName, Wordlike]
  exact each c mem

/-- The name of a payload has no underscore when the names of the types in it have none. -/
theorem wordlike_of_mem_payloadName {t : TypeRef}
    (words : ∀ name ∈ t.namedRefs, TypeName.IsWord name) {c : Char}
    (mem : c ∈ (payloadName t).toList) : Wordlike c := by
  have suffixed {text suffix : String} (front : c ∈ text.toList → Wordlike c)
      (back : ∀ c ∈ suffix.toList, Wordlike c) (mem : c ∈ (text ++ suffix).toList) :
      Wordlike c := by
    rw [String.toList_append, List.mem_append] at mem
    exact mem.elim front (back c)
  induction t with
  | named name =>
    have word := words name List.mem_cons_self
    rcases word.characters c mem with letter | rfl
    · exact fun _ => letter
    · exact absurd mem word.unbroken
  | primitive p => exact wordlike_of_mem_typeName mem
  | literal l => exact wordlike_of_mem_pascalCase mem
  | array t ih => exact suffixed (ih words) (by simp [Wordlike]) mem
  | map t ih => exact suffixed (ih words) (by simp [Wordlike]) mem

theorem pairwise_union {variants : List Variant} (discriminant : Option String)
    (words : ∀ v ∈ variants, ∀ name ∈ v.type.namedRefs, TypeName.IsWord name) :
    ((TypeDef.union discriminant variants).identifiers.zip
      (TypeDef.union discriminant variants).spellings).Pairwise fun p q =>
        Legible p.2 → Legible q.2 → p.1 ≠ q.1 := by
  refine pairwise_identifiers (· ≠ '_') (fun underscore => absurd rfl underscore)
    (distinctNames_givenFor [] _) (distinctNames_nodup [] _).1 fun s mem => ?_
  obtain ⟨v, listed, rfl⟩ := List.mem_map.mp mem
  have wordlike (c) (mem : c ∈ (payloadName v.type).toList) :=
    wordlike_of_mem_payloadName (words v listed) mem
  exact spelled_of_wordlike wordlike fun c mem =>
    (wordlike c (List.mem_of_head? mem)).ne_underscore

end Variants

section Items

variable {runtime : CodePath} {entry : String} {docs : List Attribute}

theorem flatMap_recordItems {fields : List Field} {read : Field → FieldRead} :
    (recordItems runtime entry docs fields (fields.map read)).flatMap Item.declared =
      (TypeDef.record fields).identifiers := by
  have first : (named fields).map Prod.fst = fieldNames fields :=
    List.map_fst_zip (Nat.le_of_eq (length_fieldNames fields))
  rw [TypeDef.identifiers, ← first, List.map_map, recordItems, fields_recordItems]
  simp [decodeItems, bindingItem, Item.declared, fieldItem, overflowItem, Function.comp_def]

theorem flatMap_textEnumItems {variants : List (String × String)} :
    (textEnumItems runtime entry docs variants).flatMap Item.declared = variants.map Prod.fst := by
  simp [textEnumItems, variantFunction, decodeItems, bindingItem, Item.declared]

theorem flatMap_literalEnumItems {variants : List (String × Literal)} :
    (literalEnumItems runtime entry docs variants).flatMap Item.declared =
      variants.map Prod.fst := by
  rw [literalEnumItems]
  cases enumIntegers? (variants.map fun v => v.2) <;>
    simp [variantFunction, serializeItem, decodeItems, bindingItem, Item.declared]

theorem flatMap_unionItems {variants : List (String × EmittedType)} {body : List Statement} :
    (unionItems runtime entry docs variants body).flatMap Item.declared =
      variants.map Prod.fst := by
  simp [unionItems, serializeItem, decodeItems, bindingItem, Item.declared]

end Items

end Emit

/-- The members that an entry's items declare, one item after another. -/
theorem Catalog.declared_items {c : Catalog} {runtime : Emit.CodePath} {e : Entry}
    {items : List Emit.Item} (h : c.items runtime e = .ok items) :
    items.flatMap Emit.Item.declared = e.type.identifiers := by
  have enum {values : List Literal} {descriptions : List String} {α : Type} {xs : List α}
      (length : xs.length = values.length) :
      (((Emit.enumNames values descriptions).map Emit.identifier).zip xs).map Prod.fst =
        (TypeDef.enumeration values descriptions).identifiers :=
    List.map_fst_zip (by rw [length, List.length_map, Emit.length_enumNames])
  cases emits_of_items h with
  | record type =>
    rw [type]
    exact Emit.flatMap_recordItems
  | texts type all =>
    rw [type, Emit.flatMap_textEnumItems]
    exact enum (Outcome.mapM_eq_some.mp all).length_eq.symm
  | literals type =>
    rw [type, Emit.flatMap_literalEnumItems]
    exact enum rfl
  | «union» type body =>
    rw [type, Emit.flatMap_unionItems, List.map_fst_zip (by simp [Emit.length_unionNames])]
    rfl
  | array type =>
    rw [type]
    rfl
  | «alias» type =>
    rw [type]
    rfl

theorem TypeDef.length_identifiers (type : TypeDef) :
    type.identifiers.length = type.spellings.length := by
  cases type with
  | record fields => simp [identifiers, spellings, Emit.length_fieldNames]
  | enumeration values descriptions =>
    rw [identifiers, List.length_map, Emit.length_enumNames, spellings]
    split
    · next same => rw [List.length_map, same]
    · rw [List.length_map]
  | «union» discriminant variants => simp [identifiers, spellings, Emit.length_unionNames]
  | array t => rfl
  | «alias» t => rfl

/-- In a type that mentions words only, two members for legible spellings have two identifiers. -/
theorem TypeDef.pairwise_identifiers {type : TypeDef}
    (words : ∀ name ∈ type.namedRefs, TypeName.IsWord name) :
    (type.identifiers.zip type.spellings).Pairwise fun p q =>
      Emit.Legible p.2 → Emit.Legible q.2 → p.1 ≠ q.1 := by
  cases type with
  | record fields => exact Emit.pairwise_record fields
  | enumeration values descriptions => exact Emit.pairwise_enumeration values descriptions
  | «union» discriminant variants =>
    exact Emit.pairwise_union discriminant fun v listed name mem =>
      words name (List.mem_flatMap.mpr ⟨v, listed, mem⟩)
  | array t => exact .nil
  | «alias» t => exact .nil

theorem TypeDef.nodup_identifiers {type : TypeDef}
    (words : ∀ name ∈ type.namedRefs, TypeName.IsWord name)
    (legible : ∀ s ∈ type.spellings, Emit.Legible s) : type.identifiers.Nodup := by
  have length := type.length_identifiers
  rw [List.Nodup, ← List.map_fst_zip (Nat.le_of_eq length), List.pairwise_map]
  refine (TypeDef.pairwise_identifiers words).imp_of_mem fun hp hq apart => ?_
  exact apart (legible _ (List.of_mem_zip hp).2) (legible _ (List.of_mem_zip hq).2)

theorem Catalog.unclashed_of_nodup {c : Catalog}
    (distinct : ∀ p ∈ c.entries, p.2.type.identifiers.Nodup) (runtime : Emit.CodePath) :
    c.unclashed runtime = true := by
  refine List.all_eq_true.mpr fun e listed => ?_
  obtain ⟨p, mem, rfl⟩ := List.mem_map.mp listed
  split
  · next items emitted =>
    refine List.all_eq_true.mpr fun item inside => decide_eq_true ?_
    have distinct : (items.flatMap Emit.Item.declared).Nodup := by
      rw [declared_items emitted]
      exact distinct p mem
    exact (List.nodup_flatMap.mp distinct).1 item inside
  · rfl

open Emit in
/-- The members that are emitted for an entry of a compiled catalog are named for its spellings, one
by one, and two of them clash only where one of their two spellings is empty or not ASCII. So where
all spellings are legible no emitted type has two members of one name, and no field has the name of
the overflow member. -/
theorem Graph.unclashed_of_compile {g : Graph} {c : Catalog} (compile : g.compile = .ok c) :
    (∀ p ∈ c.entries, ∀ runtime items, c.items runtime p.2 = .ok items →
      (items.flatMap Item.declared).length = p.2.type.spellings.length ∧
      ((items.flatMap Item.declared).zip p.2.type.spellings).Pairwise fun a b =>
        Legible a.2 → Legible b.2 → a.1 ≠ b.1) ∧
      ((∀ p ∈ c.entries, ∀ s ∈ p.2.type.spellings, Legible s) →
        ∀ runtime, c.unclashed runtime = true) := by
  have found (p) (mem : p ∈ c.entries) : c.get? p.1 = some p.2 := by
    obtain ⟨names, pending, compiled⟩ := Compile.compile_ok compile
    exact Assoc.get?_of_mem compiled.sorted.keys_nodup mem
  have words (p) (mem : p ∈ c.entries) (name) (mention : name ∈ p.2.type.namedRefs) :
      TypeName.IsWord name := by
    obtain ⟨mentions, -⟩ := Graph.validate_of_compile compile
    have mention : c.Mentions p.1 name := ⟨p.2, found p mem, mention⟩
    exact Compile.isWord_of_compile compile (Catalog.contains_of_checkMentions mentions mention)
  refine ⟨fun p mem runtime items emitted => ?_, fun legible runtime => ?_⟩
  · rw [Catalog.declared_items emitted]
    exact ⟨TypeDef.length_identifiers _, TypeDef.pairwise_identifiers (words p mem)⟩
  · exact Catalog.unclashed_of_nodup (fun p mem =>
      TypeDef.nodup_identifiers (words p mem) (legible p mem)) runtime

set_option maxRecDepth 100000 in
/-- A record whose keys have the spellings of other members or are reserved words, and an enum
inside. -/
theorem Graph.unclashed_of_compile_keywords :
    let mode : Json := .object [("enum", .array [.string "on", .string "On"])]
    let any : Json := .object []
    let schema : Json := .object [("properties", .object [("1st", any), ("_class", any),
      ("class", any), ("extra_data", any), ("self", any), ("type", mode)])]
    ∃ g c, Graph.load ⟨[("a.json", schema.render)]⟩ = .ok g ∧ g.compile = .ok c ∧
      c.entries.map (fun p => p.2.type.identifiers) = [
        ["_1st", "class", "class2", "extra_data_field", "self_", "r#type", "extra_data"],
        ["On", "On2"]] ∧
      (∀ p ∈ c.entries, ∀ s ∈ p.2.type.spellings, Emit.Legible s) ∧
      c.unclashed (.of ["runtime"]) = true := by
  intro mode any schema
  have runs : Bundle.compilesTo ⟨[("a.json", schema.render)]⟩ (fun _ c => decide
      (c.entries.map (fun p => p.2.type.identifiers) = [
        ["_1st", "class", "class2", "extra_data_field", "self_", "r#type", "extra_data"],
        ["On", "On2"]] ∧
      ∀ p ∈ c.entries, ∀ s ∈ p.2.type.spellings, Emit.Legible s)) = true := by
    rw [Bundle.compilesTo_eq]
    decide +kernel
  obtain ⟨g, c, load, compile, h⟩ := Bundle.exists_of_compilesTo runs
  obtain ⟨identifiers, legible⟩ := of_decide_eq_true h
  exact ⟨g, c, load, compile, identifiers, legible,
    (Graph.unclashed_of_compile compile).2 legible _⟩

set_option maxRecDepth 100000 in
/-- Members clash where spellings are empty or not ASCII: with one another, with a member that is
named for the word that stands for nothing, and with the overflow member. -/
theorem Graph.clash_of_illegible :
    let letters : Json := .object [("enum", .array [.string "é", .string "è"])]
    let word (s : String) : Json := .object [("const", .string s)]
    let list (items : Json) : Json := .object [("type", .string "array"), ("items", items)]
    let either : Json := .object [("oneOf", .array [word "éArray", list (word "è")])]
    let schema : Json := .object [("properties", .object
      [("", .object []), ("extraédata", letters), ("unknown", either)])]
    ∃ g c, Graph.load ⟨[("a.json", schema.render)]⟩ = .ok g ∧ g.compile = .ok c ∧
      c.entries.map (fun p => (c.items (.of ["runtime"]) p.2).toOption.map fun items =>
        items.flatMap Emit.Item.declared) = [
          some ["unknown", "extra_data", "unknown", "extra_data"],
          some ["__", "__"],
          some ["_Array", "_Array"]] ∧
      c.unclashed (.of ["runtime"]) = false := by
  intro letters word list either schema
  have runs : Bundle.compilesTo ⟨[("a.json", schema.render)]⟩ (fun _ c => decide
      (c.entries.map (fun p => (c.items (.of ["runtime"]) p.2).toOption.map fun items =>
        items.flatMap Emit.Item.declared) = [
          some ["unknown", "extra_data", "unknown", "extra_data"],
          some ["__", "__"],
          some ["_Array", "_Array"]] ∧
      c.unclashed (.of ["runtime"]) = false)) = true := by
    rw [Bundle.compilesTo_eq]
    decide +kernel
  obtain ⟨g, c, load, compile, h⟩ := Bundle.exists_of_compilesTo runs
  exact ⟨g, c, load, compile, of_decide_eq_true h⟩

end TypedArchive
