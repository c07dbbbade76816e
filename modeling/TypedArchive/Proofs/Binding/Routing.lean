import TypedArchive.Binding.Routing
import TypedArchive.Proofs.Compile.Fields
import TypedArchive.Proofs.Compile.Shape

/-! Documents are routed by their class. The index holds, for each text to which a record type fixes
the class field, the first such type in the order of names; it is one to one, and reading a document
by its class is reading it as that type. -/

namespace TypedArchive

/-- A record that lists no field twice fixes a field as the one of that name says. -/
theorem Compile.fixedTo?_of_mem {declared : List Field} (distinct : (declared.map Field.name).Nodup)
    {f : Field} (mem : f ∈ declared) {l : Literal} (fixed : f.type = .literal l) :
    fixedTo? declared f.name = some l := by
  have listed : (declared.find? fun other => other.name == f.name).isSome = true :=
    List.find?_isSome.mpr ⟨f, mem, beq_self_eq_true _⟩
  obtain ⟨first, found⟩ := Option.isSome_iff_exists.mp listed
  have named : first.name = f.name := by simpa using List.find?_some found
  have same : first = f :=
    List.inj_on_of_nodup_map distinct (List.mem_of_find?_eq_some found) mem named
  rw [fixedTo?, found, Option.map_some, same, fixed]

namespace Catalog

/-- A record type fixes a field to a text. -/
def FixesClass (c : Catalog) (classField text name : String) : Prop :=
  ∃ e declared, c.get? name = some e ∧ e.type = .record declared ∧
    ∃ f ∈ declared, f.name = classField ∧ f.type = .literal (.string text)

/-- The first record type, in the order of names, that fixes a field to a text. -/
structure FirstOfClass (c : Catalog) (classField text name : String) : Prop where
  fixes : c.FixesClass classField text name
  first : ∀ other, c.FixesClass classField text other → name ≤ other

theorem FirstOfClass.unique {c : Catalog} {classField text name other : String}
    (h : c.FirstOfClass classField text name) (h' : c.FirstOfClass classField text other) :
    name = other :=
  String.le_antisymm (h.first other h'.fixes) (h'.first name h.fixes)

end Catalog

/-- A record type fixes a field to one text at most. -/
theorem Catalog.FixesClass.text_unique {c : Catalog} (distinct : c.FieldsDistinct)
    {classField text text' name : String} (h : c.FixesClass classField text name)
    (h' : c.FixesClass classField text' name) : text = text' := by
  obtain ⟨e, declared, entry, type, f, mem, named, fixed⟩ := h
  obtain ⟨e', declared', entry', type', f', mem', named', fixed'⟩ := h'
  cases entry.symm.trans entry'
  cases type.symm.trans type'
  cases List.inj_on_of_nodup_map (distinct.record entry type) mem mem' (named.trans named'.symm)
  cases fixed.symm.trans fixed'
  rfl

namespace Bindings

variable {c : Catalog} {classField text name : String}

theorem classOfEntry?_eq_fixedTo? {e : Entry} : classOfEntry? classField e = some text ↔
    ∃ declared, e.type = .record declared ∧
      Compile.fixedTo? declared classField = some (.string text) := by
  rw [ classOfEntry?]
  cases type : e.type with
  | record declared =>
    simp only [TypeDef.record.injEq, exists_eq_left']
    rw [Compile.fixedTo?]
    cases (declared.find? fun f => f.name == classField).map Field.type with
    | none => simp
    | some t =>
      cases t with
      | literal l => cases l <;> simp
      | _ => simp
  | _ => simp

/-- The class of an entry is the text to which one of its fields is fixed. -/
theorem classOfEntry?_eq_some {e : Entry} (distinct : e.type.FieldsDistinct) :
    classOfEntry? classField e = some text ↔ ∃ declared, e.type = .record declared ∧
      ∃ f ∈ declared, f.name = classField ∧ f.type = .literal (.string text) := by
  rw [classOfEntry?_eq_fixedTo?]
  refine exists_congr fun declared => and_congr_right fun type => ⟨Compile.fixedTo?_eq_some, ?_⟩
  rintro ⟨f, mem, rfl, fixed⟩
  rw [type] at distinct
  exact Compile.fixedTo?_of_mem distinct mem fixed

/-- One step of the index: an entry is put under its class unless the class is taken. -/
def indexEntry (classField : String) (classes : Assoc String) (e : Entry) : Assoc String :=
  match classOfEntry? classField e with
  | some s => if classes.contains s then classes else classes.insert s e.name
  | none => classes

theorem classes_ofCatalog (c : Catalog) (classField : String) :
    (ofCatalog c classField).classes = c.entries.values.foldl (indexEntry classField) [] := rfl

theorem indexEntry_sorted {classes : Assoc String} (sorted : classes.Sorted) (e : Entry) :
    (indexEntry classField classes e).Sorted := by
  rw [indexEntry]
  split
  · split
    · exact sorted
    · exact sorted.insert
  · exact sorted

theorem get?_indexEntry (classes : Assoc String) (e : Entry) (text : String) :
    (indexEntry classField classes e).get? text = (classes.get? text).or
      (if classOfEntry? classField e = some text then some e.name else none) := by
  rw [indexEntry]
  cases own : classOfEntry? classField e with
  | none => simp
  | some s =>
    by_cases taken : classes.contains s = true
    · obtain ⟨name, found⟩ := Assoc.contains_iff_exists.mp taken
      by_cases eq : s = text <;> simp_all
    · have free : classes.get? s = none := by
        rwa [Assoc.get?_eq_none_iff, ← Assoc.contains_iff_mem_keys]
      simp only [if_neg taken, Assoc.get?_insert, Option.some.injEq]
      by_cases eq : text = s
      · simp [eq, free]
      · simp [eq, Ne.symm eq]

/-- The first entry of a class wins. -/
theorem get?_foldl_indexEntry (entries : List Entry) (classes : Assoc String) (text : String) :
    (entries.foldl (indexEntry classField) classes).get? text = (classes.get? text).or
      ((entries.find? fun e => classOfEntry? classField e == some text).map Entry.name) := by
  induction entries generalizing classes with
  | nil => simp
  | cons e entries ih =>
    rw [List.foldl_cons, ih, get?_indexEntry, Option.or_assoc, List.find?_cons]
    by_cases own : classOfEntry? classField e = some text
    · simp [own]
    · rw [if_neg own, beq_eq_false_iff_ne.mpr own, Option.none_or]

theorem classes_sorted (c : Catalog) (classField : String) :
    (ofCatalog c classField).classes.Sorted := by
  rw [classes_ofCatalog]
  exact List.foldlRecOn (motive := Assoc.Sorted) _ _ Assoc.sorted_nil
    fun classes sorted e _ => indexEntry_sorted sorted e

theorem typeForClass?_ofCatalog (c : Catalog) (classField text : String) :
    (ofCatalog c classField).typeForClass? text = (c.entries.values.find? fun e =>
      classOfEntry? classField e == some text).map Entry.name := by
  rw [typeForClass?, classes_ofCatalog, get?_foldl_indexEntry, Assoc.get?_nil, Option.none_or]

section Index

variable (sorted : c.entries.Sorted) (keyed : c.Keyed) (distinct : c.FieldsDistinct)

include sorted keyed distinct

/-- An entry has a class exactly if its name fixes it. -/
theorem fixesClass_iff : c.FixesClass classField text name ↔
    ∃ e ∈ c.entries.values, classOfEntry? classField e = some text ∧ e.name = name := by
  constructor
  · rintro ⟨e, declared, entry, type, fixed⟩
    have mem := Assoc.mem_of_get? entry
    exact ⟨e, List.mem_map_of_mem mem,
      (classOfEntry?_eq_some (distinct _ mem)).mpr ⟨declared, type, fixed⟩, keyed _ mem⟩
  · rintro ⟨_, listed, own, rfl⟩
    obtain ⟨p, mem, rfl⟩ := List.mem_map.mp listed
    obtain ⟨declared, type, fixed⟩ := (classOfEntry?_eq_some (distinct p mem)).mp own
    have entry : c.get? p.1 = some p.2 := Assoc.get?_of_mem sorted.keys_nodup mem
    exact ⟨p.2, declared, keyed p mem ▸ entry, type, fixed⟩

omit distinct in
theorem entries_ascending : c.entries.values.Pairwise fun e e' => e.name < e'.name := by
  refine List.pairwise_map.mpr (List.Pairwise.imp_of_mem ?_ sorted)
  intro p q hp hq lt
  rwa [keyed p hp, keyed q hq]

/-- The index gives the first record type of a class. -/
theorem typeForClass?_eq_some :
    (ofCatalog c classField).typeForClass? text = some name ↔
      c.FirstOfClass classField text name := by
  have fixes {name} : c.FixesClass classField text name ↔
      ∃ e ∈ c.entries.values, classOfEntry? classField e = some text ∧ e.name = name :=
    fixesClass_iff sorted keyed distinct
  have sound {name} (found : (ofCatalog c classField).typeForClass? text = some name) :
      c.FirstOfClass classField text name := by
    rw [typeForClass?_ofCatalog] at found
    obtain ⟨e, first, rfl⟩ := Option.map_eq_some_iff.mp found
    obtain ⟨own, before, after, eq, earlier⟩ := List.find?_eq_some_iff_append.mp first
    refine ⟨fixes.mpr ⟨e, List.mem_of_find?_eq_some first, beq_iff_eq.mp own, rfl⟩, ?_⟩
    intro other fixed
    obtain ⟨e', listed, own', rfl⟩ := fixes.mp fixed
    have ascending := entries_ascending sorted keyed
    rw [eq] at listed ascending
    rcases List.mem_append.mp listed with mem | mem
    · have none := earlier e' mem
      rw [own'] at none
      simp at none
    · rcases List.mem_cons.mp mem with rfl | mem
      · exact String.le_refl _
      · have later := (List.pairwise_cons.mp (List.pairwise_append.mp ascending).2.1).1
        exact String.not_lt.mp (String.lt_asymm (later e' mem))
  refine ⟨sound, fun h => ?_⟩
  obtain ⟨e, listed, own, -⟩ := fixes.mp h.fixes
  have classed : (c.entries.values.find? fun e =>
      classOfEntry? classField e == some text).isSome = true :=
    List.find?_isSome.mpr ⟨e, listed, beq_iff_eq.mpr own⟩
  obtain ⟨first, found⟩ := Option.isSome_iff_exists.mp classed
  have routed : (ofCatalog c classField).typeForClass? text = some first.name := by
    rw [typeForClass?_ofCatalog, found, Option.map_some]
  rw [routed, (sound routed).unique h]

/-- No type stands for two classes. -/
theorem typeForClass?_injective {text' : String}
    (h : (ofCatalog c classField).typeForClass? text = some name)
    (h' : (ofCatalog c classField).typeForClass? text' = some name) : text = text' := by
  rw [typeForClass?_eq_some sorted keyed distinct] at h h'
  exact h.fixes.text_unique distinct h'.fixes

/-- The two look-ups in the index are inverse to one another. -/
theorem classOf?_eq_some : (ofCatalog c classField).classOf? name = some text ↔
    (ofCatalog c classField).typeForClass? text = some name := by
  have listed {p} (found : ((ofCatalog c classField).classes.find? fun p => p.2 == name) = some p) :
      (ofCatalog c classField).typeForClass? p.1 = some name := by
    have named : p.2 = name := by simpa using List.find?_some found
    rw [← named]
    exact Assoc.get?_of_mem (classes_sorted c classField).keys_nodup
      (List.mem_of_find?_eq_some found)
  rw [classOf?, Option.map_eq_some_iff]
  constructor
  · rintro ⟨p, found, rfl⟩
    exact listed found
  · intro h
    have has : ((ofCatalog c classField).classes.find? fun p => p.2 == name).isSome = true :=
      List.find?_isSome.mpr ⟨(text, name), Assoc.mem_of_get? h, beq_self_eq_true _⟩
    obtain ⟨p, found⟩ := Option.isSome_iff_exists.mp has
    exact ⟨p, found, typeForClass?_injective sorted keyed distinct (listed found) h⟩

end Index

section Tagged

variable {b : Bindings} {v : Json} (tagged : v.get? b.classField = some (.string text))

include tagged

/-- A document with a class is routed by it, whatever the fallback. -/
theorem route_of_class (fallback : Option String) :
    b.route v fallback = match b.typeForClass? text with
      | some typeName => .ok typeName
      | none => .error (.unknownTag [] "document" b.classField (Text.quoted text)) := by
  unfold Bindings.route
  rw [tagged]
  rfl

theorem decodeTagged_eq_ok {fallback : Option String} {d : Data} :
    b.decodeTagged v fallback = .ok (name, d) ↔
      b.typeForClass? text = some name ∧ b.decode name v = .ok d := by
  rw [decodeTagged, Outcome.bind_eq_ok, route_of_class tagged]
  cases b.typeForClass? text with
  | none => simp
  | some typeName =>
    simp only [Except.ok.injEq, exists_eq_left', Outcome.bind_eq_ok, Outcome.pure_eq_ok,
      Prod.mk.injEq, Option.some.injEq]
    constructor
    · rintro ⟨d', read, rfl, rfl⟩
      exact ⟨rfl, read⟩
    · rintro ⟨rfl, read⟩
      exact ⟨d, read, rfl, rfl⟩

end Tagged

end Bindings

/-- In a compiled catalog, whatever the class field: a document whose class is a text is read by its
class exactly if the text has a record type and the document reads as the first of them; it is
written as itself again, and the fallback is not asked. Each type in the index has one class and
each class one type. -/
theorem Graph.decodeTagged_of_compile {b : Bundle} {g : Graph} (load : Graph.load b = .ok g)
    {c : Catalog} (compile : g.compile = .ok c) (classField : String) :
    let bindings := Bindings.ofCatalog c classField
    (∀ v text, v.Sorted → v.get? classField = some (.string text) → ∀ fallback,
      (∀ name d, bindings.decodeTagged v fallback = .ok (name, d) ↔
        c.FirstOfClass classField text name ∧ bindings.decode name v = .ok d) ∧
      (∀ name d, bindings.decodeTagged v fallback = .ok (name, d) →
        bindings.classOf? name = some text ∧ bindings.typeForClass? text = some name ∧
          bindings.encode name d = .ok v) ∧
      bindings.decodeTagged v fallback = bindings.decodeTagged v none) ∧
    (∀ text text' name, bindings.typeForClass? text = some name →
      bindings.typeForClass? text' = some name → text = text') ∧
    ∀ text name, bindings.classOf? name = some text ↔ bindings.typeForClass? text = some name := by
  intro bindings
  obtain ⟨names, pending, compiled⟩ := Compile.compile_ok compile
  have sorted := compiled.sorted
  have keyed := Compile.keyed_of_compile compile
  have distinct := Graph.fieldsDistinct_of_compile load compile
  have inverse {text name} : bindings.classOf? name = some text ↔
      bindings.typeForClass? text = some name := Bindings.classOf?_eq_some sorted keyed distinct
  refine ⟨fun v text kept tagged fallback => ⟨fun name d => ?_, fun name d read => ?_, ?_⟩,
    fun text text' name => Bindings.typeForClass?_injective sorted keyed distinct,
    fun text name => inverse⟩
  · rw [Bindings.decodeTagged_eq_ok tagged, Bindings.typeForClass?_eq_some sorted keyed distinct]
  · obtain ⟨routed, read⟩ := (Bindings.decodeTagged_eq_ok tagged).mp read
    exact ⟨inverse.mpr routed, routed, (Catalog.encode_decode distinct kept read).1⟩
  · rw [Bindings.decodeTagged, Bindings.decodeTagged, Bindings.route_of_class tagged,
      Bindings.route_of_class tagged]

set_option maxRecDepth 100000 in
/-- Two record types have one class. The document reads as the first of them only, and it does not
matter that the fallback has another class. -/
theorem Graph.decodeTagged_of_namesakes :
    let record (text : String) (type : String) : Json := .object [("properties", .object
      [("_class", .object [("const", .string text)]), ("n", .object [("type", .string type)])])]
    let schema : Json := .object [("definitions", .object [("a", record "x" "integer"),
      ("b", record "x" "string"), ("c", record "y" "integer")])]
    let v : Json := .object [("_class", .string "x"), ("n", .ofInt64 3), ("o", .null)]
    let w : Json := .object [("_class", .string "x"), ("n", .string "")]
    ∃ g c d, Graph.load ⟨[("a.json", schema.render)]⟩ = .ok g ∧ g.compile = .ok c ∧
      v.Sorted ∧ v.get? "_class" = some (.string "x") ∧
      (Bindings.ofCatalog c).decodeTagged v (some "C") = .ok ("A", d) ∧
      c.FirstOfClass "_class" "x" "A" ∧ (Bindings.ofCatalog c).classOf? "A" = some "x" ∧
      (Bindings.ofCatalog c).encode "A" d = .ok v ∧ (c.decode "B" w).isOk = true ∧
      ((Bindings.ofCatalog c).decodeTagged w (some "B")).isOk = false := by
  intro record schema v w
  have runs : Bundle.compilesTo ⟨[("a.json", schema.render)]⟩ (fun _ c => decide
      (((Bindings.ofCatalog c).decodeTagged v (some "C")).toOption.map Prod.fst = some "A" ∧
        (c.decode "A" w).isOk = false ∧ (c.decode "B" w).isOk = true)) = true := by
    rw [Bundle.compilesTo_eq]
    decide +kernel
  obtain ⟨g, c, load, compile, h⟩ := Bundle.exists_of_compilesTo runs
  obtain ⟨routed, refused, other⟩ := of_decide_eq_true h
  obtain ⟨⟨_, d⟩, read, rfl⟩ := Option.map_eq_some_iff.mp routed
  rw [Outcome.toOption_eq_some] at read
  have sorted : v.Sorted := by decide
  have routes := (Graph.decodeTagged_of_compile load compile "_class").1
  obtain ⟨exact, inverse, -⟩ := routes v "x" sorted rfl (some "C")
  obtain ⟨first, -⟩ := (exact "A" d).mp read
  obtain ⟨own, -, written⟩ := inverse "A" d read
  refine ⟨g, c, d, load, compile, sorted, rfl, read, first, own, written, other, ?_⟩
  refine Bool.eq_false_iff.mpr fun ok => ?_
  obtain ⟨⟨name, d'⟩, read'⟩ := Outcome.exists_of_isOk ok
  obtain ⟨first', decoded⟩ := ((routes w "x" (by decide) rfl (some "B")).1 name d').mp read'
  rw [← first.unique first'] at decoded
  change (c.decode "A" w) = .ok d' at decoded
  rw [decoded] at refused
  cases refused

end TypedArchive
