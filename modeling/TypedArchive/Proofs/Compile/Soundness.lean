import TypedArchive.Proofs.Binding.Accepts
import TypedArchive.Proofs.Compile.Satisfies
import TypedArchive.Proofs.Compile.Union
import TypedArchive.Proofs.Schema.Bytes

/-! The decoder accepts nothing that a schema, as it is compiled, forbids. -/

namespace TypedArchive.Compile

/-- A type stands for a node without a step to another node first. -/
def Stands (g : Graph) (names : Names) (i : Nat) : TypeRef → Prop
  | .named name => (i, name) ∈ names
  | t => Describes g names i t

/-- References and single branches pass on what a value respects. -/
theorem Refers.respects {g : Graph} {names : Names} {t : TypeRef} {v : Json} {i : Nat}
    (h : Refers g names i t) (stands : ∀ i, Stands g names i t → g.Respects i v) :
    g.Respects i v := by
  induction h with
  | named owned => exact stands _ owned
  | single branch _ ih => exact .wrapper branch (ih stands)
  | ref kind target _ ih => exact .ref kind target (ih stands)
  | primitive kind => exact stands _ (.primitive kind)
  | any kind => exact stands _ (.any kind)
  | constant kind literal => exact stands _ (.constant kind literal)
  | enumeration kind one literals => exact stands _ (.enumeration kind one literals)
  | array kind items h => exact stands _ (.array kind (by rwa [ItemsRefer, items]))
  | anyArray kind items => exact stands _ (.array kind (by rw [ItemsRefer, items]))
  | map kind properties additional h =>
    exact stands _ (.map kind properties (by rwa [ValuesRefer, additional]))
  | anyMap kind properties additional =>
    exact stands _ (.map kind properties (by rw [ValuesRefer, additional]))

theorem Defines.alias_refers {g : Graph} {names : Names} {i : Nat} {t : TypeRef}
    (h : Defines g names i (.alias t)) : Refers g names i t := by
  cases h with
  | ref kind target h => exact .ref kind target h
  | single branch h => exact .single branch h
  | map kind properties additional h => exact .map kind properties additional h
  | constant kind literal => exact .constant kind literal
  | primitive kind => exact .primitive kind
  | any kind => exact .any kind

theorem Defines.array_refers {g : Graph} {names : Names} {i : Nat} {t : TypeRef}
    (h : Defines g names i (.array t)) : Refers g names i (.array t) := by
  cases h with
  | array kind h =>
    rw [ItemsRefer] at h
    split at h
    · next items => exact .array kind items h
    · next items => exact h ▸ .anyArray kind items

theorem constantOf_ok {n : Node} {l : Literal} (h : constantOf n = .ok l) :
    n.constant.getD .null = l.toJson := by
  rw [constantOf] at h
  split at h
  · next literal =>
    cases h
    exact Literal.ofJson?_eq_some.mp literal
  · cases h

/-- An enumeration takes the literals of its schema, each once, and its descriptions if they are as
many. -/
theorem exists_literals_of_enumOf {n : Node} {values : List Literal} {descriptions : List String}
    (h : enumOf n = .ok (values, descriptions)) : ∃ literals : List Literal,
      n.enumValues.getD [] = literals.map Literal.toJson ∧ values = literals.eraseDups ∧
      descriptions =
        if n.enumDescriptions.length = values.length then n.enumDescriptions else [] := by
  rw [enumOf] at h
  obtain ⟨literals, each, h⟩ := Outcome.bind_eq_ok.mp h
  cases h
  have each := (Outcome.mapM_eq_ok.mp each).imp (S := fun w l => w = l.toJson) fun w l h => by
    split at h
    · next literal =>
      cases h
      exact Literal.ofJson?_eq_some.mp literal
    · cases h
  refine ⟨literals, ?_, rfl, rfl⟩
  rw [← List.forall₂_eq_eq_eq, List.forall₂_map_right_iff]
  exact each

/-- The literals of an enumeration are its values. -/
theorem enumOf_ok {n : Node} {values : List Literal} {descriptions : List String}
    (h : enumOf n = .ok (values, descriptions)) (v : Json) :
    (∃ l ∈ values, v = l.toJson) ↔ v ∈ n.enumValues.getD [] := by
  obtain ⟨literals, listed, rfl, -⟩ := exists_literals_of_enumOf h
  rw [listed]
  simp only [List.mem_eraseDups, List.mem_map, eq_comm]

theorem Meet.accepts {c : Catalog} {ts : List TypeRef} {t : TypeRef} (h : Meet ts t) (v : Json) :
    c.Accepts t v ↔ ∀ t' ∈ ts, c.Accepts t' v := by
  induction h with
  | one t => simp
  | narrow _ unify ih =>
    rw [TypeRef.accepts_unify unify, ih, List.forall_mem_append, List.forall_mem_singleton]

theorem ofKind_of_holds {p : Primitive} {v : Json} (h : p.holds v = true) :
    p.ofKind v = true := by
  revert h
  fun_cases Primitive.holds p v with
  | case3 n =>
    intro h
    cases n with
    | integer i fits => rfl
    | double x => cases h
  | case7 => exact nofun
  | _ => exact fun _ => rfl

theorem Merged.mem_toFields {m : Merged} {key : String} {f : Field}
    (found : m.fields.get? key = some f) :
    { f with optional := !m.required.contains f.name } ∈ m.toFields :=
  List.mem_map_of_mem (List.mem_map_of_mem (f := Prod.snd) (Assoc.mem_of_get? found))

section Sound

variable {g : Graph} {c : Catalog} {names : Names} {pending : List PendingUnion}

theorem Compiled.defined (compiled : Compiled g c names pending) {i : Nat} {name : String}
    {e : Entry} (owned : (i, name) ∈ names) (entry : c.get? name = some e) :
    Defines g names i e.type ∨ ∃ u ∈ pending, u.name = name ∧ u.node = i ∧
      Resolved c (branchesOf pending) u e.type := by
  rcases compiled.entry i name owned with ⟨e', entry', defines, -⟩ | ⟨u, mem, rfl, rfl⟩
  · cases entry.symm.trans entry'
    exact Or.inl defines
  · obtain ⟨-, -, e', entry', resolved⟩ := compiled.pending u mem
    cases entry.symm.trans entry'
    exact Or.inr ⟨u, mem, rfl, rfl, resolved⟩

/-- A union was left pending and resolved in the end. -/
theorem Compiled.union (compiled : Compiled g c names pending) {name : String} {e : Entry}
    (entry : c.get? name = some e) {discriminant : Option String} {variants : List Variant}
    (type : e.type = .union discriminant variants) : ∃ u ∈ pending, u.name = name ∧
      Resolved c (branchesOf pending) u (.union discriminant variants) := by
  obtain ⟨i, owned⟩ := compiled.owned name e entry
  rcases compiled.defined owned entry with defines | ⟨u, mem, named, -, resolved⟩
  · rw [type] at defines
    cases defines
  · exact ⟨u, mem, named, type ▸ resolved⟩

theorem Compiled.defines (compiled : Compiled g c names pending) {i : Nat} {name : String}
    {e : Entry} (owned : (i, name) ∈ names) (entry : c.get? name = some e) {type : TypeDef}
    (eq : e.type = type) (other : ∀ discriminant variants, type ≠ .union discriminant variants) :
    Defines g names i type := by
  subst eq
  rcases compiled.defined owned entry with defines | ⟨u, -, -, -, resolved⟩
  · exact defines
  · generalize e.type = type at other resolved
    cases resolved with
    | inlined => exact absurd rfl (other _ _)
    | tagged => exact absurd rfl (other _ _)
    | shaped => exact absurd rfl (other _ _)

theorem lookup_branchesOf (once : (pending.map PendingUnion.name).Nodup) {u : PendingUnion}
    (mem : u ∈ pending) : (branchesOf pending).lookup u.name = some u.branches := by
  refine Assoc.get?_of_mem (m := branchesOf pending) ?_ (List.mem_map_of_mem mem)
  rw [Assoc.keys, branchesOf, List.map_map]
  exact once

theorem Compiled.lookup (compiled : Compiled g c names pending) {u : PendingUnion}
    (mem : u ∈ pending) : (branchesOf pending).lookup u.name = some u.branches :=
  lookup_branchesOf compiled.queuedOnce mem

theorem mem_of_lookup_branches {name : String} {branches : List TypeRef}
    (h : (branchesOf pending).lookup name = some branches) :
    ∃ u ∈ pending, u.name = name ∧ u.branches = branches := by
  obtain ⟨u, mem, eq⟩ := List.mem_map.mp (Outcome.mem_of_lookup h)
  cases eq
  exact ⟨u, mem, rfl, rfl⟩

/-- What is known of the values inside a value. -/
def SoundBelow (g : Graph) (c : Catalog) (names : Names) (v : Json) : Prop :=
  ∀ w, sizeOf w < sizeOf v → ∀ t i, c.Accepts t w → Refers g names i t → g.Respects i w

theorem respects_of_record {i : Nat} {declared : List Field} {members : List (String × Json)}
    (below : SoundBelow g c names (.object members))
    (defines : Defines g names i (.record declared))
    (required : ∀ f ∈ declared, f.optional = false → Assoc.contains members f.name = true)
    (each : ∀ f ∈ declared, ∀ w, Assoc.get? members f.name = some w → c.Accepts f.type w) :
    g.Respects i (.object members) := by
  cases defines with
  | @merged parts m kind several allOf h =>
    have source {j : Nat} {p : String × Nat} (part : Part g i j)
        (mem : p ∈ partProperties (node g j)) :
        p ∈ parts.flatMap fun j => partProperties (node g j) :=
      List.mem_flatMap.mpr ⟨j, (h.parts_iff j).mpr part, mem⟩
    have field {key : String} (mem : key ∈ (parts.flatMap fun j =>
        partProperties (node g j)).map Prod.fst) : ∃ f, m.fields.get? key = some f :=
      mem_keys_iff.mp ((h.gathers.listed key).mpr mem)
    refine .allOf kind several allOf (fun j k part mem declares => ?_)
      fun j p part mem w found => ?_
    · obtain ⟨j', part', key⟩ := declares
      obtain ⟨p, mem', rfl⟩ := List.mem_map.mp key
      obtain ⟨f, found⟩ := field (List.mem_map_of_mem (source part' mem'))
      have named := h.gathers.name _ f found
      have needed : p.1 ∈ m.required := by
        rw [h.required]
        exact List.mem_flatMap.mpr ⟨j, (h.parts_iff j).mpr part, mem⟩
      have has := required _ (Merged.mem_toFields found) (by simpa [named] using needed)
      exact named ▸ has
    · obtain ⟨f, found'⟩ := field (List.mem_map_of_mem (source part mem))
      have named := h.gathers.name _ f found'
      obtain ⟨ts, meet, covers, -⟩ := h.gathers.meet _ f found'
      obtain ⟨t, mem', refers⟩ := covers p.2 (source part mem)
      have accepts := each _ (Merged.mem_toFields found') w (named.symm ▸ found)
      exact below w (Json.sizeOf_get? found) t p.2 ((meet.accepts w).mp accepts t mem') refers
  | record kind own fields =>
    have field {p : String × Nat} (mem : p ∈ (node g i).properties) :
        ∃ f ∈ declared, FieldOf g names (node g i) p f := by
      obtain ⟨f, both⟩ := Outcome.exists_mem_zip fields.length_eq mem
      exact ⟨f, (List.of_mem_zip both).2, (List.forall₂_iff_zip.mp fields).2 both⟩
    refine .object kind (fun k needed key => ?_) (fun p mem w found => ?_) fun none j some => ?_
    · obtain ⟨p, mem, rfl⟩ := List.mem_map.mp key
      obtain ⟨f, mem', named, -, optional⟩ := field mem
      exact named ▸ required f mem' (by simpa [optional] using needed)
    · obtain ⟨f, mem', named, refers, -⟩ := field mem
      exact below w (Json.sizeOf_get? found) f.type p.2 (each f mem' w (named.symm ▸ found)) refers
    · rw [own none] at some
      cases some

/-- A union is respected when one of the types that its branches lead to is. -/
theorem Compiled.respects_of_leaf (compiled : Compiled g c names pending) {u : PendingUnion}
    (mem : u ∈ pending) {t : TypeRef}
    (leaf : t ∈ u.branches ∨ Leaf (branchesOf pending) u.branches t)
    {v : Json} (respects : ∀ i, Refers g names i t → g.Respects i v) : g.Respects u.node v := by
  have branch {u : PendingUnion} (mem : u ∈ pending) {t : TypeRef} (mem' : t ∈ u.branches)
      (respects : ∀ i, Refers g names i t → g.Respects i v) : g.Respects u.node v := by
    obtain ⟨-, defers, -⟩ := compiled.pending u mem
    obtain ⟨b, both⟩ := Outcome.exists_mem_zip_right defers.refers.length_eq mem'
    exact .union defers.kind defers.several defers.allOf (List.of_mem_zip both).1
      (respects b ((List.forall₂_iff_zip.mp defers.refers).2 both))
  rcases leaf with mem' | leaf
  · exact branch mem mem' respects
  · generalize eq : u.branches = branches at leaf
    induction leaf generalizing u with
    | here mem' _ => exact branch mem (eq ▸ mem') respects
    | inside mem' union _ ih =>
      obtain ⟨rfl, lookup⟩ := inner?_eq_some.mp union
      obtain ⟨u', waiting, rfl, rfl⟩ := mem_of_lookup_branches lookup
      refine branch mem (eq ▸ mem') fun i refers => ?_
      refine refers.respects fun j owned => ?_
      rw [owner_unique compiled.distinct owned (compiled.pending u' waiting).1]
      exact ih waiting respects rfl

/-- A node that owns a union is respected when the variant that is read is. -/
theorem Compiled.respects_of_variant (compiled : Compiled g c names pending) {i : Nat}
    {name : String} {e : Entry} {discriminant : Option String} {variants : List Variant}
    {index : Nat} {variant : Variant} {v : Json} (owned : (i, name) ∈ names)
    (entry : c.get? name = some e) (type : e.type = .union discriminant variants)
    (chosen : variants[index]? = some variant)
    (respects : ∀ i, Refers g names i variant.type → g.Respects i v) : g.Respects i v := by
  rcases compiled.defined owned entry with defines | ⟨u, mem, -, rfl, resolved⟩
  · rw [type] at defines
    cases defines
  · rw [type] at resolved
    have chosen : variant.type ∈ variants.map Variant.type :=
      List.mem_map_of_mem (List.mem_of_getElem? chosen)
    refine compiled.respects_of_leaf mem ?_ respects
    cases resolved with
    | inlined types =>
      rw [types, mem_flattenBranches (compiled.lookup mem)] at chosen
      exact Or.inr chosen
    | tagged types => exact Or.inl (types ▸ chosen)
    | shaped types => exact Or.inl (types ▸ chosen)

/-- What a type that stands for a node accepts respects the node: by induction on the size of the
value, and for one value on how it is read. -/
theorem Compiled.respects (compiled : Compiled g c names pending) {v : Json} {t : TypeRef} {i : Nat}
    (accepts : c.Accepts t v) (refers : Refers g names i t) : g.Respects i v := by
  induction size : sizeOf v using Nat.strong_induction_on generalizing v t i with
  | h n ih =>
    subst size
    have below : SoundBelow g c names v := fun w lt t i accepts refers => ih _ lt accepts refers rfl
    clear ih
    obtain ⟨d, read⟩ := accepts
    induction read generalizing i with
    | @primitive p v d h =>
      have holds := Decode.primitive_holds.mp ⟨d, h⟩
      refine refers.respects fun j stands => ?_
      cases stands with
      | primitive kind => exact .primitive kind (ofKind_of_holds holds)
      | any kind => exact .any kind
    | @literal l v d h =>
      have eq := Decode.literal_holds.mp ⟨d, h⟩
      refine refers.respects fun j stands => ?_
      cases stands with
      | constant kind literal => exact .constant kind (eq.trans (constantOf_ok literal).symm)
      | enumeration kind _ literals =>
        exact .enumeration kind ((enumOf_ok literals v).mp ⟨l, List.mem_cons_self, eq⟩)
    | @array t items ds length each _ =>
      refine refers.respects fun j stands => ?_
      cases stands with
      | array kind element =>
        refine .array kind fun k some w mem => ?_
        obtain ⟨d, both⟩ := Outcome.exists_mem_zip length mem
        rw [ItemsRefer, some] at element
        exact below w (Json.sizeOf_item mem) t k ⟨d, each _ both⟩ element
    | @map t members entries keys each _ =>
      refine refers.respects fun j stands => ?_
      cases stands with
      | map kind none values =>
        refine .object kind (fun k _ key => ?_) (fun p mem => ?_) fun _ k some p mem => ?_
        · rw [none] at key
          cases key
        · rw [none] at mem
          cases mem
        · obtain ⟨q, both⟩ := Outcome.exists_mem_zip (Outcome.length_of_map_eq keys) mem
          rw [ValuesRefer, some] at values
          exact below p.2 (Json.sizeOf_member mem) t k ⟨q.2, each _ both⟩ values
    | @record name e declared members read entry type required recorded each _ =>
      refine refers.respects fun j owned => ?_
      have defines := compiled.defines owned entry type (by simp)
      refine respects_of_record below defines required fun f mem w found => ?_
      have present : f ∈ presentFields declared members :=
        List.mem_filter.mpr ⟨mem, Assoc.contains_iff_exists.mpr ⟨w, found⟩⟩
      obtain ⟨q, both⟩ := Outcome.exists_mem_zip (Outcome.length_of_map_eq recorded) present
      exact ⟨q.2, each _ both w found⟩
    | enumeration entry type h =>
      refine refers.respects fun j owned => ?_
      have defines := compiled.defines owned entry type (by simp)
      cases defines with
      | enumeration kind literals =>
        obtain ⟨l, literal, mem, -⟩ := Decode.enumeration_ok.mp h
        exact .enumeration kind
          ((enumOf_ok literals _).mp ⟨l, mem, Literal.ofJson?_eq_some.mp literal⟩)
    | arrayEntry entry type _ ih =>
      refine refers.respects fun j owned => ?_
      have defines := compiled.defines owned entry type (by simp)
      exact ih defines.array_refers below
    | «alias» entry type _ ih =>
      refine refers.respects fun j owned => ?_
      have defines := compiled.defines owned entry type (by simp)
      exact ih defines.alias_refers below
    | «union» entry type select _ ih =>
      refine refers.respects fun j owned => ?_
      exact compiled.respects_of_variant owned entry type (Decode.selectVariant_index select)
        fun k refers => ih refers below

end Sound

end TypedArchive.Compile

namespace TypedArchive

/-- Whether a bundle is loaded and compiled to something that passes a test. -/
def Bundle.compilesTo (b : Bundle) (test : Graph → Catalog → Bool) : Bool :=
  match Graph.load b with
  | .ok g =>
    match g.compile with
    | .ok c => test g c
    | .error _ => false
  | .error _ => false

/-- The same, with the bundle loaded from bytes. -/
def Bundle.evaluatesTo (b : Bundle) (test : Graph → Catalog → Bool) : Bool :=
  match Graph.loadBytes b with
  | .ok g =>
    match g.compile with
    | .ok c => test g c
    | .error _ => false
  | .error _ => false

theorem Bundle.compilesTo_eq (b : Bundle) (test : Graph → Catalog → Bool) :
    b.compilesTo test = b.evaluatesTo test := by
  rw [compilesTo, Graph.load_eq_loadBytes]
  rfl

theorem Bundle.exists_of_compilesTo {b : Bundle} {test : Graph → Catalog → Bool}
    (h : b.compilesTo test = true) :
    ∃ g c, Graph.load b = .ok g ∧ g.compile = .ok c ∧ test g c = true := by
  rw [compilesTo] at h
  split at h
  · next g load =>
    split at h
    · next c compile => exact ⟨g, c, load, compile, h⟩
    · cases h
  · cases h

/-- What decodes as the type of a named node respects the node. -/
theorem Graph.respects_of_decode {g : Graph} {c : Catalog} (compile : g.compile = .ok c) {i : Nat}
    {name : String} (named : (i, name) ∈ Compile.reserved g) {v : Json} {d : Data}
    (read : c.decode name v = .ok d) : g.Respects i v := by
  obtain ⟨names, pending, compiled⟩ := Compile.compile_ok compile
  exact compiled.respects ⟨d, Catalog.decode_eq_ok_iff.mp read⟩ (.named (compiled.reserved named))

set_option maxRecDepth 100000 in
theorem Graph.respects_of_decode_nested :
    let items : Json := .object [("$ref", .string "#")]
    let branches : Json := .array [.object [("type", .string "string")], .object [("items", items)]]
    let schema : Json := .object [("oneOf", branches)]
    let v : Json := .array [.string "a", .array []]
    ∃ g c i d, Graph.load ⟨[("a.json", schema.render)]⟩ = .ok g ∧ g.compile = .ok c ∧
      (i, "A") ∈ Compile.reserved g ∧ c.decode "A" v = .ok d ∧ g.Respects i v := by
  intro items branches schema v
  have runs : Bundle.compilesTo ⟨[("a.json", schema.render)]⟩ (fun g c =>
      (Compile.reserved g).any fun q => q.2 == "A" && (c.decode "A" v).isOk) = true := by
    rw [Bundle.compilesTo_eq]
    decide +kernel
  obtain ⟨g, c, load, compile, h⟩ := Bundle.exists_of_compilesTo runs
  obtain ⟨⟨i, name⟩, owned, h⟩ := List.any_eq_true.mp h
  simp only [Bool.and_eq_true, beq_iff_eq] at h
  obtain ⟨rfl, decoded⟩ := h
  obtain ⟨d, decoded⟩ := Outcome.exists_of_isOk decoded
  exact ⟨g, c, i, d, load, compile, owned, decoded, respects_of_decode compile owned decoded⟩

set_option maxRecDepth 100000 in
/-- Compilation drops required keys that no property declares, those of a composition of one branch,
what is written beside the branches of a union, its second list of branches, and the schema of
further members of a branch. -/
theorem Graph.decode_unsatisfied :
    let text : Json := .object [("type", .string "string")]
    let object : String × Json := ("type", .string "object")
    let required : String × Json := ("required", .array [.string "x"])
    let property (key : String) : String × Json := ("properties", .object [(key, text)])
    let further : String × Json := ("additionalProperties", text)
    let list (keyword : String) (branches : List Json) : String × Json := (keyword, .array branches)
    let oneOf : String × Json := list "oneOf" [text, .object [object]]
    let b (schema : Json) : Bundle := ⟨[("a.json", schema.render)]⟩
    ∀ p ∈ ([
        (.object [object, required], .object []),
        (.object [object, required, further], .object []),
        (.object [object, required, property "y"], .object []),
        (.object [list "allOf" [.object [property "x"]], required], .object []),
        (.object [list "allOf" [.object [property "y"], .object [object]], required], .object []),
        (.object [list "allOf" [.object [property "y"], .object [object, further]]],
          .object [("z", .null)]),
        (.object [oneOf, property "x"], .object [("x", .null)]),
        (.object [oneOf, required], .object []),
        (.object [oneOf, list "anyOf" [text, .object [("const", .null)]]], .object [])] :
          List (Json × Json)),
      ∃ g c i d, Graph.load (b p.1) = .ok g ∧ g.compile = .ok c ∧ (i, "A") ∈ Compile.reserved g ∧
        c.decode "A" p.2 = .ok d ∧ ¬g.Satisfies .full i p.2 := by
  intro text object required property further list oneOf b p mem
  have runs : (b p.1).compilesTo (fun g c => (Compile.reserved g).any fun q =>
      q.2 == "A" && (c.decode "A" p.2).isOk && !g.passes 3 q.1 p.2) = true := by
    rw [Bundle.compilesTo_eq]
    revert p
    decide +kernel
  obtain ⟨g, c, load, compile, h⟩ := Bundle.exists_of_compilesTo runs
  obtain ⟨⟨i, name⟩, owned, h⟩ := List.any_eq_true.mp h
  simp only [Bool.and_eq_true, beq_iff_eq, Bool.not_eq_true'] at h
  obtain ⟨⟨rfl, decoded⟩, refused⟩ := h
  obtain ⟨d, decoded⟩ := Outcome.exists_of_isOk decoded
  refine ⟨g, c, i, d, load, compile, owned, decoded, fun satisfies => ?_⟩
  rw [satisfies.passes] at refused
  cases refused

end TypedArchive
