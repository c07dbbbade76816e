import TypedArchive.Proofs.Compile.Soundness

/-! The names that a compiled catalog mentions: each is owned by a node, so each has an entry. -/

namespace TypedArchive.Compile

/-- Every name that a type mentions is owned by a node. -/
def NamesOwned (names : Names) (mentioned : List String) : Prop :=
  ∀ name ∈ mentioned, ∃ i, (i, name) ∈ names

section Types

variable {g : Graph} {names : Names}

theorem Refers.namesOwned {i : Nat} {t : TypeRef} (h : Refers g names i t) :
    NamesOwned names t.namedRefs := by
  induction h with
  | @named i name owned => exact fun _ mem => ⟨i, List.mem_singleton.mp mem ▸ owned⟩
  | single _ _ ih => exact ih
  | ref _ _ _ ih => exact ih
  | array _ _ _ ih => exact ih
  | map _ _ _ _ ih => exact ih
  | primitive | any | constant | enumeration | anyArray | anyMap => exact nofun

theorem ItemsRefer.namesOwned {n : Node} {t : TypeRef} (h : ItemsRefer g names n t) :
    NamesOwned names t.namedRefs := by
  rw [ItemsRefer] at h
  split at h
  · exact h.namesOwned
  · subst h
    exact nofun

/-- A narrowed type mentions no name that neither of its types mentions. -/
theorem namedRefs_unify {a b t : TypeRef} (h : a.unify b = some t) :
    t.namedRefs ⊆ a.namedRefs ++ b.namedRefs := by
  fun_induction TypeRef.unify a b generalizing t with
  | case1 other =>
    cases h
    exact List.subset_append_right _ _
  | case2 other =>
    cases h
    exact List.subset_append_left _ _
  | case9 a b ih =>
    obtain ⟨element, unify, rfl⟩ := Option.map_eq_some_iff.mp h
    have sub := ih unify
    exact sub
  | case10 a b ih =>
    obtain ⟨element, unify, rfl⟩ := Option.map_eq_some_iff.mp h
    have sub := ih unify
    exact sub
  | case11 t' =>
    cases h
    exact List.subset_append_left _ _
  | case3 | case5 | case7 | case8 =>
    cases h
    exact List.nil_subset _
  | case4 | case6 | case12 => cases h

theorem Meet.namedRefs {ts : List TypeRef} {t : TypeRef} (h : Meet ts t) :
    ∀ name ∈ t.namedRefs, ∃ source ∈ ts, name ∈ source.namedRefs := by
  induction h with
  | one t => exact fun name mem => ⟨t, List.mem_singleton_self t, mem⟩
  | @narrow ts a b t _ unify ih =>
    intro name mem
    rcases List.mem_append.mp (namedRefs_unify unify mem) with mem | mem
    · obtain ⟨source, listed, mem⟩ := ih name mem
      exact ⟨source, List.mem_append_left _ listed, mem⟩
    · exact ⟨b, List.mem_append_right _ (List.mem_singleton_self b), mem⟩

theorem Gathers.namesOwned {sources : List (String × Nat)} {m : Merged}
    (h : Gathers g names sources m) :
    NamesOwned names (m.toFields.flatMap fun f => f.type.namedRefs) := by
  intro name mem
  obtain ⟨f, listed, mem⟩ := List.mem_flatMap.mp mem
  obtain ⟨f', value, rfl⟩ := List.mem_map.mp listed
  obtain ⟨⟨key, _⟩, pair, rfl⟩ := List.mem_map.mp value
  obtain ⟨ts, meet, -, from_⟩ := h.meet key _ (Assoc.get?_of_mem h.sorted.keys_nodup pair)
  obtain ⟨t, source, mem⟩ := meet.namedRefs name mem
  obtain ⟨i, -, refers⟩ := from_ t source
  exact refers.namesOwned name mem

theorem Defines.namesOwned {i : Nat} {type : TypeDef} (h : Defines g names i type) :
    NamesOwned names type.namedRefs := by
  cases h with
  | ref _ _ h => exact h.namesOwned
  | single _ h => exact h.namesOwned
  | merged _ _ _ h => exact h.gathers.namesOwned
  | map _ _ _ h => exact h.namesOwned
  | record _ _ h =>
    intro name mem
    obtain ⟨f, listed, mem⟩ := List.mem_flatMap.mp mem
    obtain ⟨p, both⟩ := Outcome.exists_mem_zip_right h.length_eq listed
    exact (List.forall₂_zip h both).2.1.namesOwned name mem
  | array _ h => exact h.namesOwned
  | enumeration | constant | primitive | any => exact nofun

end Types

section Compiled

variable {g : Graph} {c : Catalog} {names : Names} {pending : List PendingUnion}

theorem Compiled.branch_refers (compiled : Compiled g c names pending) {u : PendingUnion}
    (mem : u ∈ pending) {t : TypeRef} (branch : t ∈ u.branches) : ∃ i, Refers g names i t := by
  obtain ⟨-, defers, -⟩ := compiled.pending u mem
  obtain ⟨i, both⟩ := Outcome.exists_mem_zip_right defers.refers.length_eq branch
  exact ⟨i, List.forall₂_zip defers.refers both⟩

theorem Compiled.leaf_refers (compiled : Compiled g c names pending) {u : PendingUnion}
    (mem : u ∈ pending) {t : TypeRef} (leaf : Leaf (branchesOf pending) u.branches t) :
    ∃ i, Refers g names i t := by
  generalize eq : u.branches = branches at leaf
  induction leaf generalizing u with
  | here branch _ => exact compiled.branch_refers mem (eq ▸ branch)
  | inside _ union _ ih =>
    obtain ⟨-, lookup⟩ := inner?_eq_some.mp union
    obtain ⟨u', waiting, -, rfl⟩ := mem_of_lookup_branches lookup
    exact ih waiting rfl

/-- Each variant of a union stands for some node. -/
theorem Compiled.variant_refers (compiled : Compiled g c names pending) {u : PendingUnion}
    (mem : u ∈ pending) {discriminant : Option String} {variants : List Variant}
    (resolved : Resolved c (branchesOf pending) u (.union discriminant variants)) {v : Variant}
    (variant : v ∈ variants) : ∃ i, Refers g names i v.type := by
  have listed : v.type ∈ variants.map Variant.type := List.mem_map_of_mem variant
  cases resolved with
  | inlined types =>
    rw [types, mem_flattenBranches (compiled.lookup mem)] at listed
    exact compiled.leaf_refers mem listed
  | tagged types => exact compiled.branch_refers mem (types ▸ listed)
  | shaped types => exact compiled.branch_refers mem (types ▸ listed)

theorem Compiled.namesOwned (compiled : Compiled g c names pending) {name : String} {e : Entry}
    (entry : c.get? name = some e) : NamesOwned names e.type.namedRefs := by
  obtain ⟨i, owned⟩ := compiled.owned name e entry
  rcases compiled.defined owned entry with defines | ⟨u, mem, -, -, resolved⟩
  · exact defines.namesOwned
  · intro name' mention
    generalize e.type = type at resolved mention
    have inside {discriminant : Option String} {variants : List Variant}
        (resolved : Resolved c (branchesOf pending) u (.union discriminant variants))
        (mention : name' ∈ (TypeDef.union discriminant variants).namedRefs) :
        ∃ i, (i, name') ∈ names := by
      obtain ⟨v, variant, mention⟩ := List.mem_flatMap.mp mention
      obtain ⟨j, refers⟩ := compiled.variant_refers mem resolved variant
      exact refers.namesOwned name' mention
    cases resolved with
    | inlined types tagged => exact inside (.inlined types tagged) mention
    | tagged types tagged => exact inside (.tagged types tagged) mention
    | shaped types => exact inside (.shaped types) mention

/-- Every owned name has an entry. -/
theorem Compiled.exists_entry (compiled : Compiled g c names pending) {i : Nat} {name : String}
    (owned : (i, name) ∈ names) : ∃ e, c.get? name = some e := by
  rcases compiled.entry i name owned with ⟨e, entry, -, -⟩ | ⟨u, waiting, rfl, -⟩
  · exact ⟨e, entry⟩
  · obtain ⟨-, -, e, entry, -⟩ := compiled.pending u waiting
    exact ⟨e, entry⟩

/-- Every mentioned name has an entry. -/
theorem Compiled.contains (compiled : Compiled g c names pending) {name mentioned : String}
    {e : Entry} (entry : c.get? name = some e) (mem : mentioned ∈ e.type.namedRefs) :
    c.contains mentioned = true := by
  obtain ⟨i, owned⟩ := compiled.namesOwned entry mentioned mem
  exact Assoc.contains_iff_exists.mpr (compiled.exists_entry owned)

end Compiled

end TypedArchive.Compile
