import TypedArchive.Compile.Basic
import TypedArchive.Proofs.Compile.Entries
import TypedArchive.Proofs.Compile.Flatten

/-! What becomes of a pending union: its variants are its branches or all their leaves, and with a
discriminant each variant is a record that fixes that field to the variant's tag. -/

namespace TypedArchive.Compile

/-- A catalog keeps the entries of another, and their order, and has no fewer. -/
structure Extends (c c' : Catalog) : Prop where
  entries : ∀ name e, c.get? name = some e → c'.get? name = some e
  size : c.size ≤ c'.size
  sorted : c.entries.Sorted → c'.entries.Sorted

theorem Extends.refl (c : Catalog) : Extends c c := ⟨fun _ _ h => h, Nat.le_refl _, id⟩

theorem Extends.trans {a b c : Catalog} (h : Extends a b) (h' : Extends b c) : Extends a c where
  entries name e found := h'.entries name e (h.entries name e found)
  size := Nat.le_trans h.size h'.size
  sorted keys := h'.sorted (h.sorted keys)

theorem Extends.insert {c : Catalog} {e : Entry} (fresh : c.get? e.name = none) :
    Extends c (c.insert e) where
  entries name e' found := by
    rw [Catalog.get?_insert, if_neg]
    · exact found
    · rintro rfl
      rw [fresh] at found
      cases found
  size := by
    have perm : (c.entries.insert e.name e).Perm ((e.name, e) :: c.entries) :=
      Assoc.insert_perm (Assoc.get?_eq_none_iff.mp fresh)
    have length := perm.length_eq
    rw [List.length_cons] at length
    exact Nat.le_of_lt (Nat.lt_of_lt_of_eq (Nat.lt_succ_self _) length.symm)
  sorted keys := keys.insert

theorem Extends.followAliases {c c' : Catalog} (h : Extends c c') {steps more : Nat} {name : String}
    {e : Entry} (le : steps ≤ more) (found : c.followAliases steps name = some e) :
    c'.followAliases more name = some e := by
  induction steps generalizing more name with
  | zero => cases found
  | succ steps ih =>
    obtain ⟨more, rfl⟩ := Nat.exists_eq_add_one.mpr (Nat.lt_of_lt_of_le (Nat.succ_pos _) le)
    rw [Catalog.followAliases] at found ⊢
    cases entry : c.get? name with
    | none => simp [entry] at found
    | some first =>
      simp only [entry] at found
      simp only [h.entries name first entry]
      split at found
      · exact ih (Nat.le_of_succ_le_succ le) found
      · exact found

theorem recordOf?_eq_some {c : Catalog} {t : TypeRef} {fields : List Field} :
    recordOf? c t = some fields ↔
      ∃ name e, t = .named name ∧ c.resolveAlias name = some e ∧ e.type = .record fields := by
  rw [recordOf?]
  constructor
  · intro h
    split at h
    · next declared record =>
      cases h
      obtain ⟨e, bound, type⟩ := Option.map_eq_some_iff.mp record
      obtain ⟨name, named, resolved⟩ := Option.bind_eq_some_iff.mp bound
      cases t with
      | named name' =>
        cases named
        exact ⟨name, e, rfl, resolved, type⟩
      | _ => cases named
    · cases h
  · rintro ⟨name, e, rfl, resolved, type⟩
    simp only [TypeRef.asNamed?, Option.bind_some, resolved, Option.map_some, type]

theorem Extends.recordOf? {c c' : Catalog} (h : Extends c c') {t : TypeRef} {fields : List Field}
    (found : recordOf? c t = some fields) : recordOf? c' t = some fields := by
  obtain ⟨name, e, rfl, resolved, type⟩ := recordOf?_eq_some.mp found
  exact recordOf?_eq_some.mpr
    ⟨name, e, rfl, h.followAliases (Nat.succ_le_succ h.size) resolved, type⟩

/-- Each variant is a record that fixes the field to the variant's own tag. -/
structure Tagged (c : Catalog) (discriminant : String) (variants : List Variant) : Prop where
  nonempty : variants ≠ []
  distinct : (variants.map Variant.tag).Nodup
  fixed : ∀ v ∈ variants, ∃ fields tag, v.tag = some tag ∧ recordOf? c v.type = some fields ∧
    fixedTo? fields discriminant = some tag

theorem Tagged.mono {c c' : Catalog} (h : Extends c c') {discriminant : String}
    {variants : List Variant} (tagged : Tagged c discriminant variants) :
    Tagged c' discriminant variants := by
  refine ⟨tagged.nonempty, tagged.distinct, fun v mem => ?_⟩
  obtain ⟨fields, tag, htag, record, fixed⟩ := tagged.fixed v mem
  exact ⟨fields, tag, htag, h.recordOf? record, fixed⟩

theorem discriminated?_some {c : Catalog} {branches : List TypeRef} {type : TypeDef}
    (h : discriminated? c branches = some type) : ∃ discriminant variants,
      type = .union (some discriminant) variants ∧ variants.map Variant.type = branches ∧
        Tagged c discriminant variants := by
  obtain ⟨records, resolved, h⟩ := Option.bind_eq_some_iff.mp h
  obtain ⟨⟨name, tags⟩, found, h⟩ := Option.bind_eq_some_iff.mp h
  cases h
  obtain ⟨⟨_, _⟩, mem, found⟩ := List.exists_of_findSome?_eq_some found
  dsimp only at found
  split at found
  · next fixed =>
    split at found
    · next distinct =>
      cases found
      have each := Outcome.forall₂_comp (Outcome.mapM_eq_some.mp resolved)
        (Outcome.mapM_eq_some.mp fixed)
      refine ⟨name, _, rfl, ?_, ?_, ?_, ?_⟩
      · rw [List.map_map]
        exact List.map_fst_zip (Nat.le_of_eq each.length_eq)
      · intro none
        have tags_nil : tags = [] := by
          rw [List.map_eq_nil_iff, List.zip_eq_nil_iff] at none
          rcases none with rfl | none
          · exact List.forall₂_nil_left_iff.mp each
          · exact none
        subst tags_nil
        rw [List.forall₂_nil_right_iff.mp (Outcome.mapM_eq_some.mp fixed)] at mem
        cases mem
      · rw [List.map_map]
        have eq : (branches.zip tags).map (Variant.tag ∘ fun p =>
            ({ tag := some p.2, type := p.1, shape := shapeOf c p.1 } : Variant)) =
            ((branches.zip tags).map Prod.snd).map some := by
          rw [List.map_map]
          rfl
        rw [List.map_snd_zip (Nat.le_of_eq each.length_eq.symm)] at eq
        exact eq ▸ distinct.map fun _ _ eq => Option.some.inj eq
      · intro v mem
        obtain ⟨⟨type, tag⟩, pair, rfl⟩ := List.mem_map.mp mem
        obtain ⟨fields, record, fixed⟩ := (List.forall₂_iff_zip.mp each).2 pair
        exact ⟨fields, tag, rfl, record, fixed⟩
    · cases found
  · cases found

/-- The definition that a pending union ends up with. -/
inductive Resolved (c : Catalog) (unions : Branches) (u : PendingUnion) : TypeDef → Prop
  | inlined {discriminant : String} {variants : List Variant}
      (types : variants.map Variant.type = flattenBranches unions u.name u.branches)
      (tagged : Tagged c discriminant variants) :
      Resolved c unions u (.union (some discriminant) variants)
  | tagged {discriminant : String} {variants : List Variant}
      (types : variants.map Variant.type = u.branches)
      (tagged : Tagged c discriminant variants) :
      Resolved c unions u (.union (some discriminant) variants)
  | shaped {variants : List Variant} (types : variants.map Variant.type = u.branches) :
      Resolved c unions u (.union none variants)

theorem Resolved.mono {c c' : Catalog} (h : Extends c c') {unions : Branches} {u : PendingUnion}
    {type : TypeDef} (resolved : Resolved c unions u type) : Resolved c' unions u type := by
  cases resolved with
  | inlined types tagged => exact .inlined types (tagged.mono h)
  | tagged types tagged => exact .tagged types (tagged.mono h)
  | shaped types => exact .shaped types

theorem Resolved.tagged_of_some {c : Catalog} {unions : Branches} {u : PendingUnion}
    {discriminant : String} {variants : List Variant}
    (resolved : Resolved c unions u (.union (some discriminant) variants)) :
    Tagged c discriminant variants := by
  cases resolved with
  | inlined _ tagged => exact tagged
  | tagged _ tagged => exact tagged

/-- A discriminant tells the leaves of a pending union or its branches. Where none does, a branch is
hidden, or all of them become variants told by their shapes. -/
theorem resolveUnion_cases (g : Graph) (c : Catalog) (unions : Branches) (u : PendingUnion) :
    (∃ branches, (branches = flattenBranches unions u.name u.branches ∨ branches = u.branches) ∧
      ∃ type, discriminated? c branches = some type ∧ resolveUnion g c unions u = .ok type) ∨
    (∃ j, firstHidden? (u.branches.map (shapeOf c)) = some j ∧
      resolveUnion g c unions u = .error (.ambiguousUnion (node g u.node).id j)) ∨
    (firstHidden? (u.branches.map (shapeOf c)) = none ∧ resolveUnion g c unions u =
      .ok (.union none (u.branches.map fun type => { type, shape := shapeOf c type }))) := by
  rw [resolveUnion]
  split
  · next type found =>
    rw [Option.orElse_eq_orElse, Option.orElse_eq_or] at found
    refine .inl ?_
    rcases Option.or_eq_some_iff.mp found with inlined | ⟨-, told⟩
    · split at inlined
      · cases inlined
      · exact ⟨_, .inl rfl, type, inlined, rfl⟩
    · exact ⟨_, .inr rfl, type, told, rfl⟩
  · split
    · next j hidden => exact .inr (.inl ⟨j, hidden, rfl⟩)
    · next visible => exact .inr (.inr ⟨visible, rfl⟩)

theorem resolveUnion_ok {g : Graph} {c : Catalog} {unions : Branches} {u : PendingUnion}
    {type : TypeDef} (h : resolveUnion g c unions u = .ok type) : Resolved c unions u type := by
  rcases resolveUnion_cases g c unions u with
    ⟨branches, source, type', told, eq⟩ | ⟨j, -, eq⟩ | ⟨-, eq⟩ <;> cases h.symm.trans eq
  · obtain ⟨discriminant, variants, rfl, types, tagged⟩ := discriminated?_some told
    rcases source with rfl | rfl
    · exact .inlined types tagged
    · exact .tagged types tagged
  · refine .shaped ?_
    rw [List.map_map]
    exact List.map_id _

/-- A union without a discriminant has its branches as variants, none of which hides a later
one. -/
theorem resolveUnion_shaped {g : Graph} {c : Catalog} {unions : Branches} {u : PendingUnion}
    {variants : List Variant} (h : resolveUnion g c unions u = .ok (.union none variants)) :
    variants = (u.branches.map fun type => { type, shape := shapeOf c type }) ∧
      firstHidden? (u.branches.map (shapeOf c)) = none := by
  rcases resolveUnion_cases g c unions u with
    ⟨branches, -, type, told, eq⟩ | ⟨j, -, eq⟩ | ⟨visible, eq⟩ <;> cases h.symm.trans eq
  · obtain ⟨discriminant, variants, eq, -⟩ := discriminated?_some told
    cases eq
  · exact ⟨rfl, visible⟩

/-- Resolving pending unions one after the other adds their entries and changes no other. Each is
resolved against a catalog that is kept. -/
theorem finish_resolves {g : Graph} {unions : Branches} {pending : List PendingUnion}
    {c c' : Catalog} (once : (pending.map PendingUnion.name).Nodup)
    (fresh : ∀ u ∈ pending, c.get? u.name = none)
    (h : pending.foldlM (finishUnion g unions) c = .ok c') :
    Extends c c' ∧ (∀ name ∉ pending.map PendingUnion.name, c'.get? name = c.get? name) ∧
      ∀ u ∈ pending, ∃ before e, Extends before c' ∧ c'.get? u.name = some e ∧
        resolveUnion g before unions u = .ok e.type := by
  induction pending generalizing c with
  | nil =>
    cases h
    exact ⟨.refl _, fun _ _ => rfl, nofun⟩
  | cons u pending ih =>
    rw [List.foldlM_cons] at h
    obtain ⟨c₁, first, h⟩ := Outcome.bind_eq_ok.mp h
    obtain ⟨type, resolve, eq⟩ := Outcome.bind_eq_ok.mp first
    cases eq
    obtain ⟨absent, once⟩ := List.nodup_cons.mp once
    rw [List.forall_mem_cons] at fresh
    have grown := Extends.insert (c := c) (e := ⟨u.name, (node g u.node).id,
      (node g u.node).description, type⟩) fresh.1
    have others_fresh (w) (mem : w ∈ pending) : (c.insert ⟨u.name, (node g u.node).id,
        (node g u.node).description, type⟩).get? w.name = none := by
      rw [Catalog.get?_insert, if_neg]
      · exact fresh.2 w mem
      · intro eq
        change w.name = u.name at eq
        exact absent (eq ▸ List.mem_map_of_mem mem)
    obtain ⟨kept, others, finished⟩ := ih once others_fresh h
    refine ⟨grown.trans kept, fun name mem => ?_, List.forall_mem_cons.mpr ⟨?_, finished⟩⟩
    · rw [List.map_cons, List.mem_cons, not_or] at mem
      rw [others name mem.2, Catalog.get?_insert, if_neg mem.1]
    · refine ⟨c, ⟨u.name, (node g u.node).id, (node g u.node).description, type⟩,
        grown.trans kept, ?_, resolve⟩
      rw [others u.name absent, Catalog.get?_insert, if_pos rfl]

/-- The branches of pending unions by name. -/
def branchesOf (pending : List PendingUnion) : Branches :=
  pending.map fun u => (u.name, u.branches)

/-- What a compiled catalog says about its graph: each name has one owner, and the entry of each
name is defined by its owner or is the union that its owner left pending. -/
structure Compiled (g : Graph) (c : Catalog) (names : Names) (pending : List PendingUnion) :
    Prop where
  sorted : c.entries.Sorted
  distinct : (names.map Prod.snd).Nodup
  reserved : reserved g ⊆ names
  queuedOnce : (pending.map PendingUnion.name).Nodup
  owned : ∀ name e, c.get? name = some e → ∃ i, (i, name) ∈ names
  entry : ∀ i name, (i, name) ∈ names →
    (∃ e, c.get? name = some e ∧ Defines g names i e.type ∧
      name ∉ pending.map PendingUnion.name) ∨
    ∃ u ∈ pending, u.name = name ∧ u.node = i
  resolves : ∀ u ∈ pending, ∃ before e, Extends before c ∧ c.get? u.name = some e ∧
    resolveUnion g before (branchesOf pending) u = .ok e.type
  pending : ∀ u ∈ pending, (u.node, u.name) ∈ names ∧ Defers g names u.node u.branches ∧
    ∃ e, c.get? u.name = some e ∧ Resolved c (branchesOf pending) u e.type

section Inv

variable {g : Graph} {s : State} (inv : Inv g [] s)

include inv

theorem Inv.owner {name : String} (mem : name ∈ s.taken) : ∃ i, (i, name) ∈ s.names := by
  rw [inv.taken] at mem
  obtain ⟨⟨i, _⟩, owned, rfl⟩ := List.mem_map.mp mem
  exact ⟨i, owned⟩

/-- A union that is left pending has a name, which no entry has yet. -/
theorem Inv.queued {u : PendingUnion} (mem : u ∈ s.pending) : s.catalog.get? u.name = none ∧
    (u.node, u.name) ∈ s.names ∧ Defers g s.names u.node u.branches := by
  obtain ⟨i, owned⟩ := inv.owner (inv.queuedTaken u mem)
  cases inv.status i u.name owned with
  | opened mem => cases mem
  | entered _ _ _ queue => exact absurd (List.mem_map_of_mem mem) queue
  | queued _ entry mem' named owner defers =>
    cases List.inj_on_of_nodup_map inv.queuedOnce mem' mem named
    exact ⟨entry, owner ▸ owned, owner ▸ defers⟩

theorem Inv.compiled {c : Catalog} (reserved : reserved g ⊆ s.names)
    (h : finishUnions g s.catalog s.pending = .ok c) : Compiled g c s.names s.pending := by
  obtain ⟨kept, others, finished⟩ :=
    finish_resolves inv.queuedOnce (fun u mem => (inv.queued mem).1) h
  refine ⟨kept.sorted inv.sorted, inv.names_distinct, reserved, inv.queuedOnce,
    fun name e found => ?_, fun i name mem => ?_, finished, fun u mem => ?_⟩
  · by_cases mem : name ∈ s.pending.map PendingUnion.name
    · obtain ⟨u, waiting, rfl⟩ := List.mem_map.mp mem
      exact inv.owner (inv.queuedTaken u waiting)
    · rw [others name mem] at found
      exact inv.owner (inv.enteredTaken name (Assoc.contains_iff_mem_keys.mp
        (Assoc.contains_iff_exists.mpr ⟨e, found⟩)))
  · cases inv.status i name mem with
    | opened mem => cases mem
    | entered _ entry _ queue defines =>
      exact Or.inl ⟨_, kept.entries name _ entry, defines, queue⟩
    | queued _ _ mem named owner _ => exact Or.inr ⟨_, mem, named, owner⟩
  · obtain ⟨before, e, kept, entry, resolve⟩ := finished u mem
    exact ⟨(inv.queued mem).2.1, (inv.queued mem).2.2, e, entry, (resolveUnion_ok resolve).mono kept⟩

end Inv

/-- Compilation follows the rules. -/
theorem compile_ok {g : Graph} {c : Catalog} (h : g.compile = .ok c) :
    ∃ names pending, Compiled g c names pending := by
  rw [Graph.compile] at h
  obtain ⟨⟨u, s⟩, build, h⟩ := Outcome.bind_eq_ok.mp h
  obtain ⟨catalog, finish, h⟩ := Outcome.bind_eq_ok.mp h
  obtain ⟨_, -, eq⟩ := Outcome.bind_eq_ok.mp h
  cases eq
  obtain ⟨inv, reserved⟩ := buildEntries_ok build
  exact ⟨s.names, s.pending, inv.compiled reserved finish⟩

end TypedArchive.Compile
