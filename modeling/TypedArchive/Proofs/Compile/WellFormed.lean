import Mathlib.Logic.Relation
import TypedArchive.Proofs.Compile.Completeness
import TypedArchive.Proofs.Compile.Fields
import TypedArchive.Proofs.Compile.Mentions
import TypedArchive.Proofs.Compile.Resolves

/-! What every compiled catalog is: its entries answer to the nodes of the graph one by one, every
mention has an entry, the variants of every union can be told apart, and no circle of arrays and
aliases is left. -/

namespace TypedArchive

/-- A node that owns an entry wherever it stands: the root of a document that says something, a
definition, or the target of a reference. -/
inductive Graph.OwnsEntry (g : Graph) (i : Nat) : Prop
  | root {n : Node} (node : g.node? i = some n) (root : n.pointer = []) (content : n.kind ≠ .any)
  | definition {n : Node} (node : g.node? i = some n) {parent : Pointer} {keyword key : String}
      (definitions : keyword = "definitions" ∨ keyword = "$defs")
      (pointer : n.pointer = parent ++ [keyword, key])
  | target {j : Nat} (target : g.refTarget? j = some i)

namespace Catalog

/-- A type leads through aliases to a record. -/
inductive LeadsTo (c : Catalog) : TypeRef → List Field → Prop
  | record {name : String} {e : Entry} {fields : List Field} (entry : c.get? name = some e)
      (type : e.type = .record fields) : LeadsTo c (.named name) fields
  | alias {name : String} {e : Entry} {t : TypeRef} {fields : List Field}
      (entry : c.get? name = some e) (type : e.type = .alias t) (h : LeadsTo c t fields) :
      LeadsTo c (.named name) fields

/-- An array or alias mentions a name. -/
def Passes (c : Catalog) (name next : String) : Prop :=
  ∃ e, c.get? name = some e ∧ isTransparent e.type = true ∧ next ∈ e.type.namedRefs

/-- The catalog answers to the nodes of a graph, and its entries fit one another. -/
structure WellFormed (g : Graph) (c : Catalog) : Prop where
  sorted : c.entries.Sorted
  keyed : ∀ p ∈ c.entries, p.2.name = p.1
  identifiers : ∀ p ∈ c.entries, TypeName.IsIdentifier p.1
  nodes : ∀ p ∈ c.entries, ∃ i n, g.node? i = some n ∧ p.2.origin = n.id
  origins : ∀ p ∈ c.entries, ∀ q ∈ c.entries, p.2.origin = q.2.origin → p = q
  owners : ∀ i, g.OwnsEntry i → ∃ n, g.node? i = some n ∧
    ∃! p, p ∈ c.entries ∧ p.2.origin = n.id
  mentions : ∀ p ∈ c.entries, ∀ name ∈ p.2.type.namedRefs, c.contains name = true
  fields : ∀ p ∈ c.entries, ∀ fields, p.2.type = .record fields →
    (fields.map Field.name).Pairwise (· < ·)
  values : ∀ p ∈ c.entries, ∀ values descriptions, p.2.type = .enumeration values descriptions →
    values.Nodup
  /-- With a discriminant each variant is a record that fixes it to the variant's own tag. -/
  tagged : ∀ p ∈ c.entries, ∀ discriminant variants, p.2.type = .union (some discriminant) variants →
    (variants.map Variant.tag).Nodup ∧ ∀ v ∈ variants, ∃ tag fields, v.tag = some tag ∧
      c.LeadsTo v.type fields ∧ ∃ f ∈ fields, f.name = discriminant ∧ f.type = .literal tag
  /-- Without a discriminant no variant hides a later one. -/
  shaped : ∀ p ∈ c.entries, ∀ variants, p.2.type = .union none variants →
    (∀ v ∈ variants, v.tag = none) ∧
      variants.Pairwise fun earlier later => earlier.shape.subsumes later.shape = false
  grounded : ∀ name, ¬Relation.TransGen c.Passes name name

end Catalog

/-! ### Circles of arrays and aliases -/

theorem Catalog.Passes.transparentNext? {c : Catalog} {name next : String}
    (h : c.Passes name next) : c.transparentNext? name = some next := by
  obtain ⟨e, entry, transparent, mem⟩ := h
  rw [Catalog.transparentNext?, entry, Option.map_some]
  cases type : e.type with
  | array t | «alias» t =>
    rw [type] at mem
    exact Option.mem_toList.mp mem
  | record | enumeration | union => simp [type, Catalog.isTransparent] at transparent

/-- The walk that leads back to a name is found within some number of steps. -/
theorem Catalog.exists_pathBack {c : Catalog} {name start : String}
    (h : Relation.TransGen c.Passes name start) :
    ∃ steps, (c.pathBack start steps name).isSome = true := by
  induction h using Relation.TransGen.head_induction_on with
  | single passes =>
    refine ⟨1, ?_⟩
    rw [Catalog.pathBack]
    simp [passes.transparentNext?]
  | head passes _ ih =>
    obtain ⟨steps, found⟩ := ih
    refine ⟨steps + 1, ?_⟩
    rw [Catalog.pathBack]
    simp only [passes.transparentNext?]
    split
    · rfl
    · simpa using found

/-- A walk that leads back is found within one more step than there are entries. -/
theorem Catalog.transparentCycle?_isSome {c : Catalog} {name : String} {steps : Nat}
    (h : (c.pathBack name steps name).isSome = true) :
    (c.transparentCycle? name).isSome = true := by
  have covers (a b : String)
      (next : (c.transparentNext? a).filter (· ≠ name) = some b) : a ∈ c.entries.keys := by
    have next := (Option.filter_eq_some_iff.mp next).1
    refine Assoc.contains_iff_mem_keys.mp (Assoc.contains_iff_exists.mpr ?_)
    cases entry : c.entries.get? a with
    | some e => exact ⟨e, rfl⟩
    | none => simp [Catalog.transparentNext?, Catalog.get?, entry] at next
  have bounded := Chain.search_bounded (β := Unit)
    (fun steps a _ => (c.pathBack name steps a).isSome = true) covers
    (fun {m a _} stops found k => ?_) (fun {m a b _} next found => ?_) (r := ()) h
  · rwa [Assoc.keys, List.length_map] at bounded
  · cases m with
    | zero => cases found
    | succ m =>
      rw [Catalog.pathBack] at found ⊢
      cases step : c.transparentNext? a with
      | none => simp [step] at found
      | some b =>
        have back : b = name := by simpa [step] using stops
        simp [back]
  · obtain ⟨step, other⟩ := Option.filter_eq_some_iff.mp next
    have other : b ≠ name := by simpa using other
    cases m with
    | zero => cases found
    | succ m =>
      rw [Catalog.pathBack] at found
      simp only [step, if_neg other, Option.isSome_map] at found
      refine ⟨m, (), rfl, found, fun k found => ?_⟩
      rw [Catalog.pathBack]
      simpa only [step, if_neg other, Option.isSome_map] using found

/-- The check for circles finds every circle of arrays and aliases. -/
theorem Catalog.grounded_of_checkCycles {c : Catalog}
    (keyed : ∀ p ∈ c.entries, p.2.name = p.1) (check : c.checkCycles = .ok ()) (name : String) :
    ¬Relation.TransGen c.Passes name name := by
  intro circle
  obtain ⟨next, ⟨e, entry, transparent, -⟩, -⟩ := Relation.TransGen.head'_iff.mp circle
  obtain ⟨steps, found⟩ := Catalog.exists_pathBack circle
  obtain ⟨path, cycle⟩ := Option.isSome_iff_exists.mp (Catalog.transparentCycle?_isSome found)
  have listed := Assoc.mem_of_get? entry
  have passed := Outcome.forM_eq_ok.mp check e (List.mem_map_of_mem listed)
  have named : e.name = name := keyed _ listed
  simp [transparent, named, cycle] at passed

namespace Compile

theorem isDefinition_iff {n : Node} : n.isDefinition = true ↔ ∃ parent keyword key,
    (keyword = "definitions" ∨ keyword = "$defs") ∧ n.pointer = parent ++ [keyword, key] := by
  rw [Node.isDefinition]
  split
  · next key keyword rest reversed =>
    have pointer : n.pointer = rest.reverse ++ [keyword, key] := by
      rw [← List.reverse_reverse n.pointer, reversed]
      simp
    constructor
    · exact fun h => ⟨_, keyword, key, by simpa using h, pointer⟩
    · rintro ⟨parent, keyword', key', definitions, pointer'⟩
      have same := List.append_inj_right' (pointer.symm.trans pointer') rfl
      cases same
      simpa using definitions
  · next short =>
    refine iff_of_false Bool.false_ne_true ?_
    rintro ⟨parent, keyword, key, -, pointer⟩
    refine short key keyword parent.reverse ?_
    rw [pointer]
    simp

theorem node_of_node? {g : Graph} {i : Nat} {n : Node} (h : g.node? i = some n) : node g i = n := by
  rw [node, h]
  rfl

theorem lt_of_node? {g : Graph} {i : Nat} {n : Node} (h : g.node? i = some n) : i < g.size := by
  rw [Graph.node?, Array.getElem?_eq_some_iff] at h
  exact h.1

theorem node?_of_lt {g : Graph} {i : Nat} (lt : i < g.size) : g.node? i = some (node g i) := by
  have found : g.node? i = some g.nodes[i] := Array.getElem?_eq_getElem lt
  rw [node_of_node? found]
  exact found

theorem leadsTo_of_recordOf? {c : Catalog} {t : TypeRef} {fields : List Field}
    (h : recordOf? c t = some fields) : c.LeadsTo t fields := by
  obtain ⟨name, e, rfl, resolved, type⟩ := recordOf?_eq_some.mp h
  obtain ⟨last, chain, entry, -⟩ := Catalog.resolveAlias_eq_some_iff.mp resolved
  clear h resolved
  induction chain using Relation.ReflTransGen.head_induction_on with
  | refl => exact .record entry type
  | head step _ ih =>
    obtain ⟨first, entry, type⟩ := step
    exact .alias entry type ih

theorem nodup_eraseDups {α : Type} [BEq α] [LawfulBEq α] (xs : List α) : xs.eraseDups.Nodup := by
  induction size : xs.length using Nat.strong_induction_on generalizing xs with
  | h n ih =>
    cases xs with
    | nil => exact List.nodup_nil
    | cons x xs =>
      subst size
      rw [List.eraseDups_cons]
      refine List.nodup_cons.mpr ⟨fun mem => ?_, ih _ ?_ _ rfl⟩
      · rw [List.mem_eraseDups, List.mem_filter] at mem
        simp at mem
      · exact Nat.lt_succ_of_le (List.length_filter_le _ _)

theorem enumOf_nodup {n : Node} {values : List Literal} {descriptions : List String}
    (h : enumOf n = .ok (values, descriptions)) : values.Nodup := by
  rw [enumOf] at h
  obtain ⟨literals, -, h⟩ := Outcome.bind_eq_ok.mp h
  cases h
  exact nodup_eraseDups literals

theorem firstHidden?_eq_none {shapes : List Shape} (h : firstHidden? shapes = none) :
    shapes.Pairwise fun earlier later => earlier.subsumes later = false := by
  rw [List.pairwise_iff_getElem]
  intro i j hi hj lt
  have visible := List.find?_eq_none.mp h j (List.mem_range.mpr hj)
  simp only [List.getElem?_eq_getElem hj, List.any_eq_true, not_exists, not_and,
    Bool.not_eq_true] at visible
  refine visible shapes[i] ?_
  rw [List.mem_take_iff_getElem]
  exact ⟨i, by omega, rfl⟩

theorem finishUnions_error {g : Graph} {c : Catalog} {pending : List PendingUnion}
    {e : SchemaError} (h : finishUnions g c pending = .error e) :
    ∃ id index, e = .ambiguousUnion id index := by
  rw [finishUnions] at h
  generalize (pending.map fun u => (u.name, u.branches)) = unions at h
  induction pending generalizing c with
  | nil => cases h
  | cons u pending ih =>
    rw [List.foldlM_cons] at h
    rcases Outcome.bind_eq_error.mp h with first | ⟨c₁, -, h⟩
    · rcases Outcome.bind_eq_error.mp first with resolve | ⟨type, -, h⟩
      · rcases resolveUnion_cases g c unions u with ⟨_, -, type, -, eq⟩ | ⟨j, -, eq⟩ | ⟨-, eq⟩ <;>
          cases resolve.symm.trans eq
        exact ⟨_, _, rfl⟩
      · cases h
    · exact ih h

/-- Resolving pending unions keeps what entries tell of their nodes. -/
theorem finishUnions_entered {g : Graph} {c c' : Catalog} {names : Names}
    {pending : List PendingUnion} (h : finishUnions g c pending = .ok c')
    (entered : ∀ p ∈ c.entries, Entered g names p)
    (owned : ∀ u ∈ pending, (u.node, u.name) ∈ names) : ∀ p ∈ c'.entries, Entered g names p := by
  rw [finishUnions] at h
  generalize (pending.map fun u => (u.name, u.branches)) = unions at h
  induction pending generalizing c with
  | nil =>
    cases h
    exact entered
  | cons u pending ih =>
    rw [List.foldlM_cons] at h
    obtain ⟨c₁, first, h⟩ := Outcome.bind_eq_ok.mp h
    obtain ⟨type, -, eq⟩ := Outcome.bind_eq_ok.mp first
    cases eq
    rw [List.forall_mem_cons] at owned
    refine ih (fun p mem => ?_) owned.2 h
    rcases Assoc.mem_insert mem with rfl | mem
    · exact ⟨rfl, u.node, owned.1, rfl⟩
    · exact entered p mem

/-- What a successful compilation says about the owners of entries. -/
structure Owners (g : Graph) (c : Catalog) (names : Names) : Prop where
  identifiers : ∀ p ∈ names, TypeName.IsIdentifier p.2
  once : (names.map Prod.fst).Nodup
  nodes : ∀ p ∈ names, p.1 < g.size
  named : namedNodes g ⊆ names.map Prod.fst
  entries : ∀ p ∈ c.entries, Entered g names p

theorem Compiled.checkMentions {g : Graph} {c : Catalog} {names : Names}
    {pending : List PendingUnion} (compiled : Compiled g c names pending) :
    c.checkMentions = .ok () := by
  refine Outcome.forM_eq_ok.mpr fun e mem => ?_
  obtain ⟨⟨name, e⟩, listed, rfl⟩ := List.mem_map.mp mem
  have entry : c.get? name = some e := Assoc.get?_of_mem compiled.sorted.keys_nodup listed
  split
  · next missing found =>
    have contains := compiled.contains entry (List.mem_of_find?_eq_some found)
    have absent := List.find?_some found
    simp [contains] at absent
  · rfl

theorem validate_resolves {g : Graph} {c : Catalog} {names : Names} {pending : List PendingUnion}
    (compiled : Compiled g c names pending) {e : SchemaError} (h : c.validate = .error e) :
    Resolves e := by
  rw [Catalog.validate, compiled.checkMentions] at h
  obtain ⟨entry, -, fails⟩ := Outcome.exists_of_forM_eq_error h
  split at fails <;> cases fails
  exact fun _ _ => SchemaError.noConfusion

section Loaded

variable {g : Graph} (loaded : g.Loaded)

include loaded

theorem compile_resolves {e : SchemaError} (h : g.compile = .error e) : Resolves e := by
  rw [Graph.compile] at h
  rcases Outcome.bind_eq_error.mp h with build | ⟨⟨u, s⟩, build, h⟩
  · exact buildEntries_resolves loaded build
  · rcases Outcome.bind_eq_error.mp h with finish | ⟨c, finish, h⟩
    · obtain ⟨id, index, rfl⟩ := finishUnions_error finish
      exact fun _ _ => SchemaError.noConfusion
    · obtain ⟨inv, reserved⟩ := buildEntries_ok build
      rcases Outcome.bind_eq_error.mp h with validate | ⟨_, -, h⟩
      · exact validate_resolves (inv.compiled reserved finish) validate
      · cases h

theorem compile_owners {c : Catalog} (h : g.compile = .ok c) :
    ∃ s, buildEntries g {} = .ok ((), s) ∧ Compiled g c s.names s.pending ∧
      Owners g c s.names ∧ c.checkCycles = .ok () := by
  rw [Graph.compile] at h
  obtain ⟨⟨u, s⟩, build, h⟩ := Outcome.bind_eq_ok.mp h
  obtain ⟨c', finish, h⟩ := Outcome.bind_eq_ok.mp h
  obtain ⟨_, validate, eq⟩ := Outcome.bind_eq_ok.mp h
  cases eq
  obtain ⟨inv, reserved⟩ := buildEntries_ok build
  have compiled := inv.compiled reserved finish
  obtain ⟨owned, named⟩ := buildEntries_owned loaded build
  rw [Catalog.validate, compiled.checkMentions] at validate
  exact ⟨s, build, compiled, ⟨owned.identifiers, owned.once, owned.nodes, named,
    finishUnions_entered finish owned.entries fun u mem => (compiled.pending u mem).1⟩, validate⟩

variable (ids : (g.nodes.toList.map Node.id).Nodup)

include ids

omit loaded in
/-- No two nodes have one identifier. -/
theorem eq_of_id_eq {i j : Nat} (hi : i < g.size) (hj : j < g.size)
    (eq : (node g i).id = (node g j).id) : i = j := by
  have at' {k : Nat} (lt : k < g.size) :
      (g.nodes.toList.map Node.id)[k]? = some (node g k).id := by
    rw [List.getElem?_map, Array.getElem?_toList]
    exact congrArg (Option.map Node.id) (node?_of_lt lt)
  have lt : i < (g.nodes.toList.map Node.id).length := by
    rw [List.length_map, Array.length_toList]
    exact hi
  exact (List.getElem?_inj lt ids).mp ((at' hi).trans (eq ▸ (at' hj).symm))

theorem mem_namedNodes_of_ownsEntry {i : Nat} (owns : g.OwnsEntry i) : i ∈ namedNodes g := by
  rw [mem_namedNodes loaded ids]
  cases owns with
  | root at' root content =>
    exact ⟨lt_of_node? at', .inl (node_of_node? at' ▸ ⟨root, content⟩)⟩
  | definition at' definitions pointer =>
    refine ⟨lt_of_node? at', .inr (.inl ?_)⟩
    exact isDefinition_iff.mpr (node_of_node? at' ▸ ⟨_, _, _, definitions, pointer⟩)
  | @target j target =>
    obtain ⟨n, at', leads⟩ := Option.bind_eq_some_iff.mp target
    have mem := Array.mem_toList_iff.mpr (Array.mem_of_getElem? at')
    exact ⟨loaded.targets n mem i leads, .inr (.inr ⟨j, lt_of_node? at', target⟩)⟩

variable {c : Catalog} {names : Names} {pending : List PendingUnion}
  (compiled : Compiled g c names pending) (owners : Owners g c names)

omit loaded in
include compiled owners in
theorem origin_injective {p q : String × Entry} (hp : p ∈ c.entries) (hq : q ∈ c.entries)
    (eq : p.2.origin = q.2.origin) : p = q := by
  obtain ⟨-, i, owned, origin⟩ := owners.entries p hp
  obtain ⟨-, j, owned', origin'⟩ := owners.entries q hq
  have same : i = j := eq_of_id_eq ids (owners.nodes _ owned) (owners.nodes _ owned')
    (origin.symm.trans (eq.trans origin'))
  have name : p.1 = q.1 := congrArg Prod.snd
    (List.inj_on_of_nodup_map owners.once owned owned' same)
  exact List.inj_on_of_nodup_map compiled.sorted.keys_nodup hp hq name

include compiled owners in
theorem existsUnique_owned {i : Nat} (owns : g.OwnsEntry i) :
    ∃ n, g.node? i = some n ∧ ∃! p, p ∈ c.entries ∧ p.2.origin = n.id := by
  have named := mem_namedNodes_of_ownsEntry loaded ids owns
  obtain ⟨⟨_, name⟩, owned, rfl⟩ := List.mem_map.mp (owners.named named)
  obtain ⟨e, entry⟩ := compiled.exists_entry owned
  have mem := Assoc.mem_of_get? entry
  obtain ⟨-, j, owned', origin⟩ := owners.entries _ mem
  cases List.inj_on_of_nodup_map compiled.distinct owned owned' rfl
  refine ⟨_, node?_of_lt (owners.nodes _ owned), (name, e), ⟨mem, origin⟩, ?_⟩
  rintro q ⟨hq, eq⟩
  exact origin_injective ids compiled owners hq mem (eq.trans origin.symm)

end Loaded

section Definitions

variable {g : Graph} {c : Catalog} {names : Names} {pending : List PendingUnion}
  (compiled : Compiled g c names pending) {name : String} {e : Entry}
  (entry : c.get? name = some e)

include compiled entry

theorem Compiled.tagged {discriminant : String} {variants : List Variant}
    (type : e.type = .union (some discriminant) variants) :
    (variants.map Variant.tag).Nodup ∧ ∀ v ∈ variants, ∃ tag fields, v.tag = some tag ∧
      c.LeadsTo v.type fields ∧ ∃ f ∈ fields, f.name = discriminant ∧ f.type = .literal tag := by
  obtain ⟨u, -, -, resolved⟩ := compiled.union entry type
  have tagged := resolved.tagged_of_some
  refine ⟨tagged.distinct, fun v mem => ?_⟩
  obtain ⟨fields, tag, own, record, fixed⟩ := tagged.fixed v mem
  exact ⟨tag, fields, own, leadsTo_of_recordOf? record, fixedTo?_eq_some fixed⟩

theorem Compiled.shaped {variants : List Variant} (type : e.type = .union none variants) :
    (∀ v ∈ variants, v.tag = none) ∧
      variants.Pairwise fun earlier later => earlier.shape.subsumes later.shape = false := by
  obtain ⟨u, mem, rfl, -⟩ := compiled.union entry type
  obtain ⟨before, e', -, entry', resolve⟩ := compiled.resolves u mem
  cases entry.symm.trans entry'
  rw [type] at resolve
  obtain ⟨rfl, visible⟩ := resolveUnion_shaped resolve
  refine ⟨fun v mem => ?_, ?_⟩
  · obtain ⟨t, -, rfl⟩ := List.mem_map.mp mem
    rfl
  · exact List.pairwise_map.mpr (List.pairwise_map.mp (firstHidden?_eq_none visible))

theorem Compiled.values {values : List Literal} {descriptions : List String}
    (type : e.type = .enumeration values descriptions) : values.Nodup := by
  obtain ⟨i, owned⟩ := compiled.owned name e entry
  rcases compiled.defined owned entry with defines | ⟨u, -, -, -, resolved⟩
  · rw [type] at defines
    cases defines with
    | enumeration _ literals => exact enumOf_nodup literals
  · rw [type] at resolved
    cases resolved

end Definitions

end Compile

open Compile in
/-- From documents whose names hold no mark, compilation gives a well-formed catalog, and it does not
fail for want of the target of a reference. -/
theorem Graph.wellFormed_of_compile {b : Bundle} {g : Graph}
    (documents : b.documents.keys.Nodup) (marks : ∀ name ∈ b.documents.keys, '#' ∉ name.toList)
    (load : Graph.load b = .ok g) :
    (∀ raw id, g.compile ≠ .error (.unresolvedReference raw id)) ∧
      ∀ c, g.compile = .ok c → c.WellFormed g := by
  obtain ⟨loaded, distinct⟩ := Graph.loaded_of_load load
  have ids := distinct documents marks
  refine ⟨fun raw id fails => compile_resolves loaded fails raw id rfl, fun c compile => ?_⟩
  obtain ⟨s, -, compiled, owners, cycles⟩ := compile_owners loaded compile
  have entry (p) (mem : p ∈ c.entries) : c.get? p.1 = some p.2 :=
    Assoc.get?_of_mem compiled.sorted.keys_nodup mem
  have keyed (p) (mem : p ∈ c.entries) : p.2.name = p.1 := (owners.entries p mem).1
  exact {
    sorted := compiled.sorted
    keyed
    identifiers := fun p mem => by
      obtain ⟨-, i, owned, -⟩ := owners.entries p mem
      exact owners.identifiers _ owned
    nodes := fun p mem => by
      obtain ⟨-, i, owned, origin⟩ := owners.entries p mem
      exact ⟨i, node g i, node?_of_lt (owners.nodes _ owned), origin⟩
    origins := fun p hp q hq eq => origin_injective ids compiled owners hp hq eq
    owners := fun i owns => existsUnique_owned loaded ids compiled owners owns
    mentions := fun p mem name mention => compiled.contains (entry p mem) mention
    fields := fun p mem fields type => by
      have ascending := compiled.fieldsAscending loaded (entry p mem)
      rwa [type] at ascending
    values := fun p mem values descriptions type => compiled.values (entry p mem) type
    tagged := fun p mem discriminant variants type => compiled.tagged (entry p mem) type
    shaped := fun p mem variants type => compiled.shaped (entry p mem) type
    grounded := Catalog.grounded_of_checkCycles keyed cycles }

set_option maxRecDepth 100000 in
/-- A union of two definitions, told apart by a field. -/
theorem Graph.wellFormed_of_animals :
    let animal (kind : String) : Json := .object
      [("properties", .object [("kind", .object [("const", .string kind)])])]
    let schema : Json := .object
      [("definitions", .object [("cat", animal "cat"), ("dog", animal "dog")]),
        ("oneOf", .array [.object [("$ref", .string "#/definitions/cat")],
          .object [("$ref", .string "#/definitions/dog")]])]
    ∃ g c, Graph.load ⟨[("a.json", schema.render)]⟩ = .ok g ∧ g.compile = .ok c ∧
      c.names = ["A", "Cat", "Dog"] ∧ c.WellFormed g := by
  intro animal schema
  have runs : Bundle.compilesTo ⟨[("a.json", schema.render)]⟩ (fun _ c => decide
      (c.names = ["A", "Cat", "Dog"])) = true := by
    rw [Bundle.compilesTo_eq]
    decide +kernel
  obtain ⟨g, c, load, compile, h⟩ := Bundle.exists_of_compilesTo runs
  have documents : (Bundle.mk [("a.json", schema.render)]).documents.keys = ["a.json"] := rfl
  have marks (name) (mem : name ∈ (Bundle.mk [("a.json", schema.render)]).documents.keys) :
      '#' ∉ name.toList := by
    rw [documents, List.mem_singleton] at mem
    simp [mem]
  exact ⟨g, c, load, compile, of_decide_eq_true h,
    (Graph.wellFormed_of_compile (documents ▸ List.nodup_singleton _) marks load).2 c compile⟩

end TypedArchive
