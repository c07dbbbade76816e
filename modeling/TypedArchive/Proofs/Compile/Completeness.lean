import TypedArchive.Proofs.Catalog.Alias
import TypedArchive.Proofs.Compile.Soundness

/-! The decoder accepts everything that a schema allows, when each union is told apart by a field
that its variants require. -/

namespace TypedArchive

/-- The type names a record that requires a field. -/
def Catalog.requiresField (c : Catalog) (name : String) (t : TypeRef) : Bool :=
  (Compile.recordOf? c t).any fun fields => fields.any fun f => f.name == name && !f.optional

/-- A union has a discriminant that each variant's record requires. -/
def TypeDef.Discriminated (c : Catalog) : TypeDef → Prop
  | .union (some name) variants => ∀ v ∈ variants, c.requiresField name v.type = true
  | .union none _ => False
  | _ => True

instance (c : Catalog) : (t : TypeDef) → Decidable (t.Discriminated c)
  | .union (some name) variants =>
    inferInstanceAs (Decidable (∀ v ∈ variants, c.requiresField name v.type = true))
  | .union none _ => isFalse id
  | .record _ | .enumeration .. | .array _ | .alias _ => isTrue trivial

def Catalog.Discriminated (c : Catalog) : Prop := ∀ p ∈ c.entries, p.2.type.Discriminated c

instance (c : Catalog) : Decidable c.Discriminated :=
  inferInstanceAs (Decidable (∀ p ∈ c.entries, p.2.type.Discriminated c))

namespace Compile

variable {c : Catalog}

/-- What a name accepts is accepted where its aliases end, also later in compilation. -/
theorem accepts_of_resolveAlias {before : Catalog} (kept : Extends before c) {name : String}
    {e : Entry} (resolved : before.resolveAlias name = some e) {v : Json}
    (accepts : c.Accepts (.named name) v) :
    ∃ last, c.get? last = some e ∧ c.Accepts (.named last) v := by
  obtain ⟨last, chain, entry, -⟩ := Catalog.resolveAlias_eq_some_iff.mp resolved
  refine ⟨last, kept.entries last e entry, ?_⟩
  clear resolved entry
  induction chain with
  | refl => exact accepts
  | tail _ step ih =>
    obtain ⟨e, entry, type⟩ := step
    exact (Catalog.accepts_alias (kept.entries _ e entry) type).mp ih

/-- A type that leads to a record accepts what the record accepts. -/
theorem accepts_of_recordOf? {t : TypeRef} {fields : List Field} (h : recordOf? c t = some fields)
    {v : Json} (accepts : c.Accepts t v) : ∃ members, v = .object members ∧
      (∀ f ∈ fields, f.optional = false → Assoc.contains members f.name = true) ∧
      ∀ f ∈ fields, ∀ w, Assoc.get? members f.name = some w → c.Accepts f.type w := by
  obtain ⟨name, e, rfl, resolved, type⟩ := recordOf?_eq_some.mp h
  obtain ⟨last, entry, accepts⟩ := accepts_of_resolveAlias (.refl c) resolved accepts
  exact (Catalog.accepts_record entry type).mp accepts

theorem fixedTo?_eq_some {fields : List Field} {name : String} {l : Literal}
    (h : fixedTo? fields name = some l) : ∃ f ∈ fields, f.name = name ∧ f.type = .literal l := by
  rw [fixedTo?] at h
  split at h
  · next literal type =>
    cases h
    obtain ⟨f, found, type⟩ := Option.map_eq_some_iff.mp type
    exact ⟨f, List.mem_of_find?_eq_some found, by simpa using List.find?_some found, type⟩
  · cases h

theorem variantForTag?_eq_some {variants : List Variant} {index : Nat} {variant : Variant}
    {tag : Literal} (distinct : (variants.map Variant.tag).Nodup)
    (place : variants[index]? = some variant) (tagged : variant.tag = some tag) :
    variantForTag? variants tag = some (index, variant) := by
  have found : (variants.zipIdx.find? fun p => p.1.tag == some tag).isSome = true := by
    rw [List.find?_isSome]
    exact ⟨(variant, index), List.mem_zipIdx_iff_getElem?.mpr place, beq_iff_eq.mpr tagged⟩
  obtain ⟨⟨first, i⟩, found⟩ := Option.isSome_iff_exists.mp found
  have test : first.tag = some tag := by simpa using List.find?_some found
  have place' : variants[i]? = some first :=
    List.mem_zipIdx_iff_getElem?.mp (List.mem_of_find?_eq_some found)
  have lt : i < (variants.map Variant.tag).length := by
    rw [List.length_map]
    exact (List.getElem?_eq_some_iff.mp place').1
  have same : (variants.map Variant.tag)[i]? = (variants.map Variant.tag)[index]? := by
    rw [List.getElem?_map, List.getElem?_map, place', place, Option.map_some, Option.map_some,
      test, tagged]
  obtain rfl : i = index := (List.getElem?_inj lt distinct).mp same
  obtain rfl : first = variant := Option.some.inj (place'.symm.trans place)
  rw [variantForTag?, found, Option.map_some]

/-- A value that has the field which tells the variants selects the variant that accepts it. -/
theorem selectVariant_of_accepts {discriminant : String} {variants : List Variant}
    (tagged : Tagged c discriminant variants) {index : Nat} {variant : Variant}
    (place : variants[index]? = some variant) {v : Json}
    (has : (v.get? discriminant).isSome = true) (accepts : c.Accepts variant.type v)
    (name : String) :
    Decode.selectVariant name (some discriminant) variants v [] =
      .ok (index, variant, variant.tag) := by
  obtain ⟨fields, tag, htag, record, fixed⟩ := tagged.fixed variant (List.mem_of_getElem? place)
  obtain ⟨members, rfl, -, each⟩ := accepts_of_recordOf? record accepts
  obtain ⟨f, mem, rfl, literal⟩ := fixedTo?_eq_some fixed
  obtain ⟨w, found⟩ := Option.isSome_iff_exists.mp has
  have eq := each f mem w found
  rw [literal, Catalog.accepts_literal] at eq
  have lookup : List.lookup f.name members = some w := found
  have selected := variantForTag?_eq_some tagged.distinct place htag
  simp only [Decode.selectVariant, lookup, eq, Literal.ofJson?_toJson, selected, htag]

/-- A tagged union accepts what one of its variants accepts, with the field that tells it. -/
theorem accepts_of_tag {name discriminant : String} {e : Entry} {variants : List Variant}
    (entry : c.get? name = some e) (type : e.type = .union (some discriminant) variants)
    (tagged : Tagged c discriminant variants) {variant : Variant} (mem : variant ∈ variants)
    {v : Json} (has : (v.get? discriminant).isSome = true) (accepts : c.Accepts variant.type v) :
    c.Accepts (.named name) v := by
  obtain ⟨index, place⟩ := List.getElem?_of_mem mem
  obtain ⟨d, read⟩ := accepts
  exact ⟨_, .union entry type (selectVariant_of_accepts tagged place has ⟨d, read⟩ e.name) read⟩

/-- A tagged union accepts what one of its variants accepts. -/
theorem accepts_of_variant {name discriminant : String} {e : Entry} {variants : List Variant}
    (entry : c.get? name = some e) (type : e.type = .union (some discriminant) variants)
    (tagged : Tagged c discriminant variants) {variant : Variant} (mem : variant ∈ variants)
    (requires : c.requiresField discriminant variant.type = true) {v : Json}
    (accepts : c.Accepts variant.type v) : c.Accepts (.named name) v := by
  obtain ⟨fields, tag, -, record, -⟩ := tagged.fixed variant mem
  obtain ⟨members, rfl, required, -⟩ := accepts_of_recordOf? record accepts
  refine accepts_of_tag entry type tagged mem ?_ accepts
  rw [Catalog.requiresField, record, Option.any_some, List.any_eq_true] at requires
  obtain ⟨f, listed, needed⟩ := requires
  rw [Bool.and_eq_true, beq_iff_eq, Bool.not_eq_true'] at needed
  obtain ⟨rfl, needed⟩ := needed
  exact required f listed needed

section Complete

variable {g : Graph} {names : Names} {pending : List PendingUnion}

theorem Compiled.inner?_eq_none (compiled : Compiled g c names pending) {name : String} {e : Entry}
    (entry : c.get? name = some e) (other : ∀ discriminant variants,
      e.type ≠ .union discriminant variants) :
    inner? (branchesOf pending) (.named name) = none := by
  rw [Option.eq_none_iff_forall_not_mem]
  rintro ⟨name', inner⟩ union
  obtain ⟨eq, lookup⟩ := inner?_eq_some.mp union
  cases eq
  obtain ⟨u, mem, rfl, rfl⟩ := mem_of_lookup_branches lookup
  obtain ⟨-, -, e', entry', resolved⟩ := compiled.pending u mem
  cases entry.symm.trans entry'
  generalize e.type = type at other resolved
  cases resolved with
  | inlined => exact other _ _ rfl
  | tagged => exact other _ _ rfl
  | shaped => exact other _ _ rfl

/-- What a type accepts is accepted by some type that it leads to through pending unions. -/
theorem Compiled.exists_leaf (compiled : Compiled g c names pending) {t : TypeRef} {v : Json}
    (accepts : c.Accepts t v) : ∃ leaf, Leaf (branchesOf pending) [t] leaf ∧ c.Accepts leaf v := by
  obtain ⟨d, read⟩ := accepts
  have plain {t : TypeRef} {v : Json} {d : Data} (read : c.Reads t v d)
      (plain : inner? (branchesOf pending) t = none) :
      ∃ leaf, Leaf (branchesOf pending) [t] leaf ∧ c.Accepts leaf v :=
    ⟨t, .here List.mem_cons_self plain, d, read⟩
  induction read with
  | @«union» name e discriminant variants v index variant tag d entry type select read ih =>
    cases union : inner? (branchesOf pending) (.named name) with
    | none => exact plain (.union entry type select read) union
    | some pair =>
      obtain ⟨name', inner⟩ := pair
      obtain ⟨eq, lookup⟩ := inner?_eq_some.mp union
      cases eq
      obtain ⟨u, mem, rfl, rfl⟩ := mem_of_lookup_branches lookup
      obtain ⟨-, -, e', entry', resolved⟩ := compiled.pending u mem
      cases entry.symm.trans entry'
      rw [type] at resolved
      have chosen : variant.type ∈ variants.map Variant.type :=
        List.mem_map_of_mem (List.mem_of_getElem? (Decode.selectVariant_index select))
      have direct (mem : variant.type ∈ u.branches) :
          ∃ leaf, Leaf (branchesOf pending) [.named u.name] leaf ∧ c.Accepts leaf v := by
        obtain ⟨leaf, leads, accepts⟩ := ih
        exact ⟨leaf, .inside List.mem_cons_self union (leads.subset (by simpa using mem)), accepts⟩
      cases resolved with
      | inlined types =>
        rw [types, mem_flattenBranches lookup] at chosen
        exact ⟨variant.type, .inside List.mem_cons_self union chosen, d, read⟩
      | tagged types => exact direct (types ▸ chosen)
      | shaped types => exact direct (types ▸ chosen)
  | primitive h => exact plain (.primitive h) rfl
  | literal h => exact plain (.literal h) rfl
  | array length each => exact plain (.array length each) rfl
  | map keys each => exact plain (.map keys each) rfl
  | record entry type required recorded each =>
    exact plain (.record entry type required recorded each)
      (compiled.inner?_eq_none entry (by simp [type]))
  | enumeration entry type h =>
    exact plain (.enumeration entry type h)
      (compiled.inner?_eq_none entry (by simp [type]))
  | arrayEntry entry type h =>
    exact plain (.arrayEntry entry type h)
      (compiled.inner?_eq_none entry (by simp [type]))
  | «alias» entry type h =>
    exact plain (.alias entry type h)
      (compiled.inner?_eq_none entry (by simp [type]))

/-- A union accepts what one of its branches accepts. -/
theorem Compiled.accepts_of_branch (compiled : Compiled g c names pending)
    (discriminated : c.Discriminated) {u : PendingUnion} (mem : u ∈ pending) {t : TypeRef}
    (branch : t ∈ u.branches) {v : Json} (accepts : c.Accepts t v) :
    c.Accepts (.named u.name) v := by
  obtain ⟨-, -, e, entry, resolved⟩ := compiled.pending u mem
  have required := discriminated _ (Assoc.mem_of_get? entry)
  have choose {discriminant : String} {variants : List Variant} {t : TypeRef}
      (type : e.type = .union (some discriminant) variants)
      (tagged : Tagged c discriminant variants) (mem : t ∈ variants.map Variant.type)
      (accepts : c.Accepts t v) : c.Accepts (.named u.name) v := by
    obtain ⟨variant, listed, rfl⟩ := List.mem_map.mp mem
    rw [type] at required
    exact accepts_of_variant entry type tagged listed (required variant listed) accepts
  generalize type : e.type = definition at resolved
  cases resolved with
  | inlined types tagged =>
    obtain ⟨leaf, leads, accepts⟩ := compiled.exists_leaf accepts
    refine choose type tagged ?_ accepts
    rw [types, mem_flattenBranches (compiled.lookup mem)]
    exact leads.subset (by simpa using branch)
  | tagged types tagged => exact choose type tagged (types ▸ branch) accepts
  | shaped types =>
    rw [type] at required
    exact required.elim

theorem Compiled.branches_ne_nil (compiled : Compiled g c names pending)
    (discriminated : c.Discriminated) {u : PendingUnion} (mem : u ∈ pending) :
    u.branches ≠ [] := by
  obtain ⟨-, -, e, entry, resolved⟩ := compiled.pending u mem
  have required := discriminated _ (Assoc.mem_of_get? entry)
  intro none
  have empty {variants : List Variant} (types : variants.map Variant.type = []) : variants = [] :=
    List.map_eq_nil_iff.mp types
  generalize type : e.type = definition at resolved
  cases resolved with
  | inlined types tagged =>
    refine tagged.nonempty (empty (types.trans ?_))
    refine List.eq_nil_iff_forall_not_mem.mpr fun t leaf => ?_
    rw [mem_flattenBranches (compiled.lookup mem), none] at leaf
    cases leaf with
    | here mem => cases mem
    | inside mem => cases mem
  | tagged types tagged => exact tagged.nonempty (empty (types.trans none))
  | shaped =>
    rw [type] at required
    exact required

theorem satisfies_part {r : Graph.Reading} {i j : Nat} {v : Json} (h : g.Satisfies r i v)
    (part : Part g i j) : g.Satisfies r j v := by
  induction part with
  | self => exact h
  | ref kind target _ ih =>
    cases h with
    | ref _ target' _ h =>
      cases target.symm.trans target'
      exact ih h
    | _ => simp_all
  | branch kind mem _ ih =>
    cases h with
    | composition _ all => exact ih (all _ mem)
    | _ => simp_all

/-- The keys that a part of a merged composition requires and the properties that it declares. -/
theorem holds_part {i j : Nat} {members : List (String × Json)}
    (h : g.Satisfies .sufficient i (.object members)) (kind : (node g i).kind = .composition)
    (several : singleBranch (node g i) = none) (merges : Graph.Merges (node g i))
    (part : Part g i j) (mergeable : Mergeable (node g j)) :
    (∀ k ∈ (node g j).required, Assoc.contains members k = true) ∧
      ∀ p ∈ partProperties (node g j), ∀ w, Assoc.get? members p.1 = some w →
        g.Satisfies .sufficient p.2 w := by
  have inside := satisfies_part h part
  rw [Mergeable] at mergeable
  cases inside with
  | ref kind' _ beside _ =>
    refine ⟨beside members rfl, fun p mem => ?_⟩
    simp [partProperties, kind'] at mem
  | any kind' =>
    refine ⟨?_, fun p mem => ?_⟩
    · cases h with
      | composition _ _ _ _ _ _ beside _ =>
        exact beside.2 merges several j part kind' members rfl
      | _ => simp_all
    · simp [partProperties, kind'] at mem
  | object kind' required properties _ =>
    refine ⟨required, ?_⟩
    rw [partProperties, kind']
    exact properties
  | composition kind' _ _ _ _ _ beside properties =>
    simp only [kind'] at mergeable
    have merges' : Graph.Merges (node g j) := fun _ => by
      rw [alternatives, mergeable.1, mergeable.2]
      rfl
    refine ⟨(beside.1 merges').1 members rfl, ?_⟩
    rw [partProperties, kind']
    exact fun p mem w found => properties merges' p mem members rfl w found
  | primitive kind' => simp [kind'] at mergeable
  | constant kind' => simp [kind'] at mergeable
  | enumeration kind' => simp [kind'] at mergeable

/-- What is known of the values inside a value. -/
def CompleteBelow (g : Graph) (c : Catalog) (names : Names) (v : Json) : Prop :=
  ∀ w, sizeOf w < sizeOf v → ∀ t i, g.Satisfies .sufficient i w → Refers g names i t →
    c.Accepts t w

/-- The record of a merged composition accepts a value that satisfies it. -/
theorem accepts_of_merged {i : Nat} {name : String} {e : Entry} {parts : List Nat} {m : Merged}
    {members : List (String × Json)} (below : CompleteBelow g c names (.object members))
    (h : g.Satisfies .sufficient i (.object members)) (kind : (node g i).kind = .composition)
    (several : singleBranch (node g i) = none) (merges : Graph.Merges (node g i))
    (entry : c.get? name = some e) (type : e.type = .record m.toFields)
    (merged : MergedOf g names i parts m) : c.Accepts (.named name) (.object members) := by
  have holds {j : Nat} (mem : j ∈ parts) := holds_part h kind several merges
    ((merged.parts_iff j).mp mem) (merged.mergeable j mem)
  -- A field of the record is a merged one under its own name.
  have field {f' : Field} (mem : f' ∈ m.toFields) : ∃ f, m.fields.get? f.name = some f ∧
      f' = { f with optional := !m.required.contains f.name } := by
    obtain ⟨f, value, rfl⟩ := List.mem_map.mp mem
    obtain ⟨⟨key, _⟩, pair, rfl⟩ := List.mem_map.mp value
    have found := Assoc.get?_of_mem merged.gathers.sorted.keys_nodup pair
    have named := merged.gathers.name _ _ found
    exact ⟨_, named.symm ▸ found, rfl⟩
  refine (Catalog.accepts_record entry type).mpr
    ⟨members, rfl, fun f' mem needed => ?_, fun f' mem w found => ?_⟩
  · obtain ⟨f, -, rfl⟩ := field mem
    have required : f.name ∈ m.required := by simpa using needed
    rw [merged.required] at required
    obtain ⟨j, part, required⟩ := List.mem_flatMap.mp required
    exact (holds part).1 _ required
  · obtain ⟨f, found', rfl⟩ := field mem
    obtain ⟨ts, meet, -, sources⟩ := merged.gathers.meet _ f found'
    refine (meet.accepts w).mpr fun t mem => ?_
    obtain ⟨k, source, refers⟩ := sources t mem
    obtain ⟨j, part, source⟩ := List.mem_flatMap.mp source
    exact below w (Json.sizeOf_get? found) t k ((holds part).2 _ source w found) refers

theorem singleBranch_mem {n : Node} {b : Nat} (h : singleBranch n = some b) :
    n.allOf = [b] ∨ n.oneOf = [b] ∨ n.anyOf = [b] := by
  rw [singleBranch] at h
  split at h
  · split at h
    · cases h
      exact Or.inl ‹_›
    · cases h
      exact Or.inr (Or.inl ‹_›)
    · cases h
      exact Or.inr (Or.inr ‹_›)
    · cases h
  · cases h

/-- The entry of a name accepts what its node is satisfied by, when each definition of the node
does and the branches of the union that it may be do. -/
theorem Compiled.accepts_named (compiled : Compiled g c names pending) {i : Nat} {name : String}
    {v : Json} (owned : (i, name) ∈ names)
    (entered : ∀ e, c.get? name = some e → Defines g names i e.type → c.Accepts (.named name) v)
    (queued : ∀ u ∈ pending, u.node = i → Defers g names i u.branches →
      c.Accepts (.named u.name) v) : c.Accepts (.named name) v := by
  rcases compiled.entry i name owned with ⟨e, entry, defines, -⟩ | ⟨u, mem, rfl, rfl⟩
  · exact entered e entry defines
  · exact queued u mem rfl (compiled.pending u mem).2.1

/-- A node that is nothing but another one is accepted as the other one is. -/
theorem Compiled.accepts_of_forwards (compiled : Compiled g c names pending) {i j : Nat} {v : Json}
    (forward : Forwards g i j) (accepts : ∀ {t : TypeRef}, Refers g names j t → c.Accepts t v)
    {t : TypeRef} (refers : Refers g names i t) : c.Accepts t v := by
  rcases refers.forwards forward with ⟨name, rfl, owned⟩ | refers
  · refine compiled.accepts_named owned (fun e entry defines => ?_) fun u _ _ defers => ?_
    · obtain ⟨t, type, refers⟩ := defines.forwards forward
      exact (Catalog.accepts_alias entry type).mpr (accepts refers)
    · exact absurd forward defers.not_forwards
  · exact accepts refers

/-- A plain node is accepted by each type that stands for it when it is by what describes it. -/
theorem Compiled.accepts_of_describes (compiled : Compiled g c names pending) {i : Nat} {v : Json}
    (ref : (node g i).kind ≠ .ref) (composition : (node g i).kind ≠ .composition)
    (described : ∀ t, Describes g names i t → c.Accepts t v)
    (listed : (node g i).kind = .enumeration → ∀ values descriptions,
      enumOf (node g i) = .ok (values, descriptions) → ∃ l ∈ values, v = l.toJson)
    (recorded : (node g i).kind = .object → ∀ fields,
      List.Forall₂ (FieldOf g names (node g i)) (node g i).properties fields →
      ∃ members, v = .object members ∧
        (∀ f ∈ fields, f.optional = false → Assoc.contains members f.name = true) ∧
        ∀ f ∈ fields, ∀ w, Assoc.get? members f.name = some w → c.Accepts f.type w)
    {t : TypeRef} (refers : Refers g names i t) : c.Accepts t v := by
  rcases refers.describes ref composition with ⟨name, rfl, owned⟩ | describes
  · refine compiled.accepts_named owned (fun e entry defines => ?_)
      fun u _ _ defers => absurd defers.kind composition
    rcases defines.describes ref composition with ⟨t, type, describes⟩ | ⟨t, type, describes⟩ |
      ⟨values, descriptions, type, kind, literals⟩ | ⟨fields, type, kind, each⟩
    · exact (Catalog.accepts_alias entry type).mpr (described t describes)
    · exact (Catalog.accepts_arrayEntry entry type).mpr (described _ describes)
    · exact (Catalog.accepts_enumeration entry type).mpr (listed kind values descriptions literals)
    · exact (Catalog.accepts_record entry type).mpr (recorded kind fields each)
  · exact described t describes

/-- The one listed value of an enumeration is the literal that stands for it. -/
theorem accepts_of_listed {i : Nat} {v : Json} {l : Literal} {more : List Literal}
    {descriptions : List String} (mem : v ∈ (node g i).enumValues.getD [])
    (one : ((node g i).enumValues.getD []).length = 1)
    (literals : enumOf (node g i) = .ok (l :: more, descriptions)) :
    c.Accepts (.literal l) v := by
  have listed := (enumOf_ok literals l.toJson).mp ⟨l, List.mem_cons_self, rfl⟩
  obtain ⟨w, eq⟩ := List.length_eq_one_iff.mp one
  rw [eq, List.mem_singleton] at mem listed
  exact Catalog.accepts_literal.mpr (mem.trans listed.symm)

theorem accepts_of_items {i : Nat} {items : List Json} {t : TypeRef}
    (below : CompleteBelow g c names (.array items))
    (each : ∀ j, (node g i).items = some j → ∀ w ∈ items, g.Satisfies .sufficient j w)
    (element : ItemsRefer g names (node g i) t) : c.Accepts (.array t) (.array items) := by
  refine Catalog.accepts_array.mpr ⟨items, rfl, fun w mem => ?_⟩
  rw [ItemsRefer] at element
  split at element
  · next j some => exact below w (Json.sizeOf_item mem) t j (each j some w mem) element
  · exact element ▸ Catalog.accepts_any

theorem accepts_of_values {i : Nat} {members : List (String × Json)} {t : TypeRef}
    (below : CompleteBelow g c names (.object members))
    (each : ∀ j, (node g i).additional = some j → ∀ p ∈ members, g.Satisfies .sufficient j p.2)
    (values : ValuesRefer g names (node g i) t) : c.Accepts (.map t) (.object members) := by
  refine Catalog.accepts_map.mpr ⟨members, rfl, fun p mem => ?_⟩
  rw [ValuesRefer] at values
  split at values
  · next j some => exact below p.2 (Json.sizeOf_member mem) t j (each j some p mem) values
  · exact values ▸ Catalog.accepts_any

/-- Fields that stand for the properties of an object node are read from a value of the node. -/
theorem accepts_of_fields {i : Nat} {members : List (String × Json)} {fields : List Field}
    (below : CompleteBelow g c names (.object members))
    (required : ∀ k ∈ (node g i).required, Assoc.contains members k = true)
    (properties : ∀ p ∈ (node g i).properties, ∀ w, Assoc.get? members p.1 = some w →
      g.Satisfies .sufficient p.2 w)
    (each : List.Forall₂ (FieldOf g names (node g i)) (node g i).properties fields) :
    (∀ f ∈ fields, f.optional = false → Assoc.contains members f.name = true) ∧
      ∀ f ∈ fields, ∀ w, Assoc.get? members f.name = some w → c.Accepts f.type w := by
  have field {f : Field} (mem : f ∈ fields) : ∃ p ∈ (node g i).properties,
      FieldOf g names (node g i) p f := by
    obtain ⟨p, both⟩ := Outcome.exists_mem_zip_right each.length_eq mem
    exact ⟨p, (List.of_mem_zip both).1, (List.forall₂_iff_zip.mp each).2 both⟩
  constructor
  · intro f mem needed
    obtain ⟨p, -, named, -, optional⟩ := field mem
    refine required f.name ?_
    simpa [named, needed] using optional
  · intro f mem w found
    obtain ⟨p, mem, named, refers, -⟩ := field mem
    rw [named] at found
    exact below w (Json.sizeOf_get? found) f.type p.2 (properties p mem w found) refers

/-- A composition of several branches is accepted as the record that its parts are merged to, or as
the union of its alternatives. -/
theorem Compiled.accepts_of_several (compiled : Compiled g c names pending)
    (discriminated : c.Discriminated) {i : Nat} {v : Json}
    (kind : (node g i).kind = .composition) (several : singleBranch (node g i) = none)
    (merged : ∀ {name e parts m}, c.get? name = some e → e.type = .record m.toFields →
      (node g i).allOf ≠ [] → MergedOf g names i parts m → c.Accepts (.named name) v)
    (chosen : alternatives (node g i) ≠ [] → ∃ b ∈ alternatives (node g i), ∀ {t : TypeRef},
      Refers g names b t → c.Accepts t v)
    {t : TypeRef} (refers : Refers g names i t) : c.Accepts t v := by
  cases refers with
  | named owned =>
    refine compiled.accepts_named owned (fun e entry defines => ?_) fun u mem node defers => ?_
    · generalize type : e.type = definition at defines
      cases defines with
      | merged _ _ allOf h => exact merged entry type allOf h
      | _ => simp_all
    · have some : alternatives (Compile.node g i) ≠ [] := by
        intro none
        have refers := defers.refers
        rw [none, List.forall₂_nil_left_iff] at refers
        exact compiled.branches_ne_nil discriminated mem refers
      obtain ⟨b, listed, accepts⟩ := chosen some
      obtain ⟨t, both⟩ := Outcome.exists_mem_zip defers.refers.length_eq listed
      exact compiled.accepts_of_branch discriminated mem (List.of_mem_zip both).2
        (accepts ((List.forall₂_iff_zip.mp defers.refers).2 both))
  | _ => simp_all

/-- What satisfies a node is accepted by each type that stands for it: by induction on the size of
the value, and for one value on how the node is satisfied. -/
theorem Compiled.accepts (compiled : Compiled g c names pending) (discriminated : c.Discriminated)
    {v : Json} {t : TypeRef} {i : Nat} (h : g.Satisfies .sufficient i v)
    (refers : Refers g names i t) : c.Accepts t v := by
  induction size : sizeOf v using Nat.strong_induction_on generalizing v t i with
  | h n ih =>
    subst size
    have below : CompleteBelow g c names v := fun w lt t i h refers => ih _ lt h refers rfl
    clear ih
    induction h generalizing t with
    | ref kind target _ _ ih =>
      exact compiled.accepts_of_forwards (.ref kind target) (fun refers => ih refers below) refers
    | primitive kind holds =>
      refine compiled.accepts_of_describes (by simp [kind]) (by simp [kind]) (fun t describes => ?_)
        (fun kind' => by simp [kind] at kind') (fun kind' => by simp [kind] at kind') refers
      cases describes with
      | primitive kind' =>
        cases kind.symm.trans kind'
        exact Catalog.accepts_primitive.mpr holds
      | any => exact Catalog.accepts_any
      | _ => simp_all
    | any kind =>
      refine compiled.accepts_of_describes (by simp [kind]) (by simp [kind]) (fun t describes => ?_)
        (fun kind' => by simp [kind] at kind') (fun kind' => by simp [kind] at kind') refers
      cases describes with
      | any => exact Catalog.accepts_any
      | _ => simp_all
    | constant kind eq =>
      refine compiled.accepts_of_describes (by simp [kind]) (by simp [kind]) (fun t describes => ?_)
        (fun kind' => by simp [kind] at kind') (fun kind' => by simp [kind] at kind') refers
      cases describes with
      | constant _ literal =>
        exact Catalog.accepts_literal.mpr (eq.trans (constantOf_ok literal))
      | _ => simp_all
    | enumeration kind mem =>
      refine compiled.accepts_of_describes (by simp [kind]) (by simp [kind]) (fun t describes => ?_)
        (fun _ _ _ literals => (enumOf_ok literals _).mpr mem)
        (fun kind' => by simp [kind] at kind') refers
      cases describes with
      | enumeration _ one literals => exact accepts_of_listed mem one literals
      | _ => simp_all
    | array kind each _ =>
      refine compiled.accepts_of_describes (by simp [kind]) (by simp [kind]) (fun t describes => ?_)
        (fun kind' => by simp [kind] at kind') (fun kind' => by simp [kind] at kind') refers
      cases describes with
      | array _ element => exact accepts_of_items below each element
      | _ => simp_all
    | object kind required properties additional _ _ =>
      refine compiled.accepts_of_describes (by simp [kind]) (by simp [kind]) (fun t describes => ?_)
        (fun kind' => by simp [kind] at kind')
        (fun _ fields each => ⟨_, rfl, accepts_of_fields below required properties each⟩) refers
      cases describes with
      | map _ none values => exact accepts_of_values below (additional none) values
      | _ => simp_all
    | @composition i one any v kind all oneOf oneHolds anyOf anyHolds beside properties ihAll ihOne
        ihAny =>
      cases branch : singleBranch (node g i) with
      | some b =>
        refine compiled.accepts_of_forwards (.single branch) (fun {t} refers => ?_) refers
        rcases singleBranch_mem branch with eq | eq | eq
        · exact ihAll b (by simp [eq]) refers below
        · have chosen := oneOf (by simp [eq])
          rw [eq, List.mem_singleton] at chosen
          exact ihOne (by simp [eq]) (chosen ▸ refers) below
        · have chosen := anyOf (by simp [eq])
          rw [eq, List.mem_singleton] at chosen
          exact ihAny (by simp [eq]) (chosen ▸ refers) below
      | none =>
        refine compiled.accepts_of_several discriminated kind branch
          (fun entry type allOf merged => ?_) (fun some => ?_) refers
        · have merges : Graph.Merges (node g i) := fun none => absurd none allOf
          obtain ⟨members, rfl⟩ := (beside.1 merges).2 branch
          have satisfies : g.Satisfies .sufficient i (.object members) :=
            .composition kind all oneOf oneHolds anyOf anyHolds beside properties
          exact accepts_of_merged below satisfies kind branch merges entry type merged
        · by_cases empty : (node g i).oneOf.isEmpty = true
          · rw [alternatives, if_pos empty] at some ⊢
            exact ⟨any, anyOf some, fun refers => ihAny some refers below⟩
          · rw [alternatives, if_neg empty] at some ⊢
            exact ⟨one, oneOf some, fun refers => ihOne some refers below⟩

end Complete

end Compile

open Compile (node alternatives)

end TypedArchive
