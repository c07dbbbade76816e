import TypedArchive.Proofs.Compile.Progress

/-! Compilation follows the rules: each of its functions keeps the invariant and every name, and
its result stands for its node. -/

namespace TypedArchive.Compile

theorem mem_keys_iff {m : Assoc Field} {key : String} :
    key ∈ m.keys ↔ ∃ f, m.get? key = some f := by
  rw [← Assoc.contains_iff_mem_keys, Assoc.contains_iff_exists]

theorem Gathers.empty (g : Graph) (names : Names) : Gathers g names [] {} where
  sorted := Assoc.sorted_nil
  name := nofun
  listed := fun _ => Iff.rfl
  meet := nofun

/-- A new field at a name; every other key keeps its field and its sources. -/
theorem Gathers.put {g : Graph} {names : Names} {sources : List (String × Nat)} {m : Merged}
    {name : String} {i : Nat} (gathers : Gathers g names sources m) {f : Field}
    (named : f.name = name) (meet : ∃ ts, Meet ts f.type ∧
      (∀ j, (name, j) ∈ sources ++ [(name, i)] → ∃ t ∈ ts, Refers g names j t) ∧
      ∀ t ∈ ts, ∃ j, (name, j) ∈ sources ++ [(name, i)] ∧ Refers g names j t) :
    Gathers g names (sources ++ [(name, i)]) { m with fields := m.fields.insert name f } := by
  refine ⟨gathers.sorted.insert, fun key f' found => ?_, fun key => ?_, fun key f' found => ?_⟩
  · rw [Assoc.get?_insert] at found
    split at found
    · next eq =>
      cases found
      exact named.trans eq.symm
    · exact gathers.name key f' found
  · rw [Assoc.mem_keys_insert, gathers.listed, List.map_append, List.mem_append, or_comm]
    simp
  · rw [Assoc.get?_insert] at found
    split at found
    · next eq =>
      cases found
      exact eq ▸ meet
    · next ne =>
      obtain ⟨ts, meet, covers, from_⟩ := gathers.meet key f' found
      refine ⟨ts, meet, fun j mem => covers j ?_, fun t mem => ?_⟩
      · rcases List.mem_append.mp mem with mem | mem
        · exact mem
        · exact absurd (congrArg Prod.fst (List.mem_singleton.mp mem)) ne
      · obtain ⟨j, mem, refers⟩ := from_ t mem
        exact ⟨j, List.mem_append_left _ mem, refers⟩

theorem Merged.add_ok {g : Graph} {names : Names} {sources : List (String × Nat)} {m m' : Merged}
    {root name : String} {i : Nat} {t : TypeRef} {description : Option String}
    (gathers : Gathers g names sources m) (refers : Refers g names i t)
    (h : m.add root name t description = .ok m') :
    Gathers g names (sources ++ [(name, i)]) m' ∧ m'.required = m.required := by
  rw [Merged.add] at h
  split at h
  · next absent =>
    cases h
    refine ⟨gathers.put rfl ⟨[t], .one t, fun j mem => ?_, fun t' mem => ?_⟩, rfl⟩
    · rcases List.mem_append.mp mem with mem | mem
      · have listed := (gathers.listed name).mpr (List.mem_map_of_mem (f := Prod.fst) mem)
        exact absurd listed (Assoc.get?_eq_none_iff.mp absent)
      · cases List.mem_singleton.mp mem
        exact ⟨t, List.mem_cons_self, refers⟩
    · rw [List.mem_singleton.mp mem]
      exact ⟨i, List.mem_append_right _ List.mem_cons_self, refers⟩
  · next old found =>
    split at h
    · next narrowed unify =>
      cases h
      obtain ⟨ts, meet, covers, from_⟩ := gathers.meet name old found
      refine ⟨gathers.put (gathers.name name old found)
        ⟨ts ++ [t], .narrow meet unify, fun j mem => ?_, fun t' mem => ?_⟩, rfl⟩
      · rcases List.mem_append.mp mem with mem | mem
        · obtain ⟨t', mem, refers⟩ := covers j mem
          exact ⟨t', List.mem_append_left _ mem, refers⟩
        · cases List.mem_singleton.mp mem
          exact ⟨t, List.mem_append_right _ List.mem_cons_self, refers⟩
      · rcases List.mem_append.mp mem with mem | mem
        · obtain ⟨j, mem, refers⟩ := from_ t' mem
          exact ⟨j, List.mem_append_left _ mem, refers⟩
        · rw [List.mem_singleton.mp mem]
          exact ⟨i, List.mem_append_right _ List.mem_cons_self, refers⟩
    · cases h

/-- What is gathered from further parts of an `allOf`. -/
structure Collects (g : Graph) (names : Names) (sources : List (String × Nat)) (m : Merged)
    (parts : List Nat) (m' : Merged) : Prop where
  gathers : Gathers g names (sources ++ parts.flatMap fun j => partProperties (node g j)) m'
  required : m'.required = m.required ++ parts.flatMap fun j => (node g j).required
  mergeable : ∀ j ∈ parts, Mergeable (node g j)

theorem Gathers.require {g : Graph} {names : Names} {sources : List (String × Nat)} {m : Merged}
    (h : Gathers g names sources m) (keys : List String) :
    Gathers g names sources { m with required := m.required ++ keys } :=
  ⟨h.sorted, h.name, h.listed, h.meet⟩

/-- One part alone, with its properties and its required keys. -/
theorem Collects.single {g : Graph} {names : Names} {sources : List (String × Nat)}
    {m m' : Merged} {i : Nat} (mergeable : Mergeable (node g i))
    (gathers : Gathers g names (sources ++ partProperties (node g i)) m')
    (required : m'.required = m.required ++ (node g i).required) :
    Collects g names sources m [i] m' where
  gathers := by rwa [List.flatMap_singleton]
  required := by rwa [List.flatMap_singleton]
  mergeable j mem := List.mem_singleton.mp mem ▸ mergeable

theorem Collects.trans {g : Graph} {names more : Names} {sources : List (String × Nat)}
    {m m₁ m' : Merged} {parts parts' : List Nat} (h : Collects g names sources m parts m₁)
    (h' : Collects g more (sources ++ parts.flatMap fun j => partProperties (node g j)) m₁ parts'
      m') :
    Collects g more sources m (parts ++ parts') m' where
  gathers := by
    rw [List.flatMap_append, ← List.append_assoc]
    exact h'.gathers
  required := by rw [List.flatMap_append, ← List.append_assoc, ← h.required, h'.required]
  mergeable j mem := (List.mem_append.mp mem).elim (h.mergeable j) (h'.mergeable j)

theorem refTarget_ok {g : Graph} {i j : Nat} (h : refTarget g i = .ok j) :
    g.refTarget? i = some j := by
  rw [refTarget] at h
  split at h
  · next found =>
    cases h
    exact found
  · cases h

/-- What each function of the compiler does within a budget. -/
structure Specs (g : Graph) (budget : Nat) : Prop where
  compileNamed : ∀ {opened s s' i name u}, Inv g (name :: opened) s → (i, name) ∈ s.names →
    compileNamed g budget i name s = .ok (u, s') → Inv g opened s' ∧ s.names ⊆ s'.names
  typeRef : ∀ {opened s s' i hint t}, Inv g opened s →
    typeRef g budget i hint s = .ok (t, s') →
    Inv g opened s' ∧ s.names ⊆ s'.names ∧ Refers g s'.names i t
  itemsRef : ∀ {opened s s' n owner t}, Inv g opened s →
    itemsRef g budget n owner s = .ok (t, s') →
    Inv g opened s' ∧ s.names ⊆ s'.names ∧ ItemsRefer g s'.names n t
  recordFields : ∀ {opened s s' n owner properties fields}, Inv g opened s →
    recordFields g budget n owner properties s = .ok (fields, s') →
    Inv g opened s' ∧ s.names ⊆ s'.names ∧ List.Forall₂ (FieldOf g s'.names n) properties fields
  collectFields : ∀ {opened s s' root i owner visiting m m' sources}, Inv g opened s →
    Gathers g s.names sources m →
    collectFields g budget root i owner visiting m s = .ok (m', s') →
    Inv g opened s' ∧ s.names ⊆ s'.names ∧
      ∃ parts, (∀ j, j ∈ parts ↔ Part g i j) ∧ Collects g s'.names sources m parts m'
  collectBranches : ∀ {opened s s' root branches owner visiting m m' sources}, Inv g opened s →
    Gathers g s.names sources m →
    collectBranches g budget root branches owner visiting m s = .ok (m', s') →
    Inv g opened s' ∧ s.names ⊆ s'.names ∧
      ∃ parts, (∀ j, j ∈ parts ↔ ∃ b ∈ branches, Part g b j) ∧
        Collects g s'.names sources m parts m'
  mergeProperties : ∀ {opened s s' root owner properties m m' sources}, Inv g opened s →
    Gathers g s.names sources m →
    mergeProperties g budget root owner properties m s = .ok (m', s') →
    Inv g opened s' ∧ s.names ⊆ s'.names ∧ Gathers g s'.names (sources ++ properties) m' ∧
      m'.required = m.required
  deferUnion : ∀ {opened s s' i name u}, Inv g (name :: opened) s → (i, name) ∈ s.names →
    (node g i).kind = .composition → singleBranch (node g i) = none → (node g i).allOf = [] →
    deferUnion g budget i name s = .ok (u, s') → Inv g opened s' ∧ s.names ⊆ s'.names
  branchRefs : ∀ {opened s s' name place branches types}, Inv g opened s →
    branchRefs g budget name place branches s = .ok (types, s') →
    Inv g opened s' ∧ s.names ⊆ s'.names ∧ List.Forall₂ (Refers g s'.names) branches types

/-- Making the entry of an open name ends its compilation. -/
theorem Inv.finish {g : Graph} {opened : List String} {s s' : State} {i : Nat} {names : Names}
    {name origin : String} {description : Option String} {type : TypeDef} {u : Unit}
    (inv : Inv g (name :: opened) s) (owned : (i, name) ∈ names) (sub : names ⊆ s.names)
    (defines : Defines g s.names i type)
    (h : (modify fun s =>
      { s with catalog := s.catalog.insert { name, origin, description, type } } :
        Build Unit) s = .ok (u, s')) : Inv g opened s' ∧ names ⊆ s'.names := by
  cases h
  exact ⟨inv.enter (e := { name, origin, description, type }) (sub owned) defines, sub⟩

section Step

variable {g : Graph} {budget : Nat} (specs : Specs g budget)

include specs

theorem itemsRef_step {opened : List String} {s s' : State} {n : Node} {owner : String}
    {t : TypeRef} (inv : Inv g opened s) (h : itemsRef g (budget + 1) n owner s = .ok (t, s')) :
    Inv g opened s' ∧ s.names ⊆ s'.names ∧ ItemsRefer g s'.names n t := by
  rw [itemsRef] at h
  rw [ItemsRefer]
  cases found : n.items with
  | some items =>
    simp only [found] at h
    exact specs.typeRef inv h
  | none =>
    simp only [found] at h
    cases h
    exact ⟨inv, List.Subset.refl _, rfl⟩

theorem recordFields_step {opened : List String} {s s' : State} {n : Node} {owner : String}
    {properties : Assoc Nat} {fields : List Field} (inv : Inv g opened s)
    (h : recordFields g (budget + 1) n owner properties s = .ok (fields, s')) :
    Inv g opened s' ∧ s.names ⊆ s'.names ∧
      List.Forall₂ (FieldOf g s'.names n) properties fields := by
  cases properties with
  | nil =>
    rw [recordFields] at h
    swap; exact Nat.succ_ne_zero _
    cases h
    exact ⟨inv, List.Subset.refl _, .nil⟩
  | cons p rest =>
    rw [recordFields] at h
    obtain ⟨t, s₁, run, h⟩ := Outcome.bind_run_eq_ok.mp h
    obtain ⟨more, s₂, run', h⟩ := Outcome.bind_run_eq_ok.mp h
    cases h
    obtain ⟨inv, sub, refers⟩ := specs.typeRef inv run
    obtain ⟨inv, sub', fields⟩ := specs.recordFields inv run'
    exact ⟨inv, List.Subset.trans sub sub', .cons ⟨rfl, refers.mono sub', rfl⟩ fields⟩

theorem mergeProperties_step {opened : List String} {s s' : State} {root owner : String}
    {properties : Assoc Nat} {m m' : Merged} {sources : List (String × Nat)}
    (inv : Inv g opened s) (gathers : Gathers g s.names sources m)
    (h : mergeProperties g (budget + 1) root owner properties m s = .ok (m', s')) :
    Inv g opened s' ∧ s.names ⊆ s'.names ∧ Gathers g s'.names (sources ++ properties) m' ∧
      m'.required = m.required := by
  cases properties with
  | nil =>
    rw [mergeProperties] at h
    swap; exact Nat.succ_ne_zero _
    cases h
    rw [List.append_nil]
    exact ⟨inv, List.Subset.refl _, gathers, rfl⟩
  | cons p rest =>
    rw [mergeProperties] at h
    obtain ⟨t, s₁, run, h⟩ := Outcome.bind_run_eq_ok.mp h
    obtain ⟨added, s₂, run', h⟩ := Outcome.bind_run_eq_ok.mp h
    obtain ⟨add, rfl⟩ := Outcome.lift_run_eq_ok.mp run'
    obtain ⟨inv, sub, refers⟩ := specs.typeRef inv run
    obtain ⟨gathers, same⟩ := Merged.add_ok (gathers.mono sub) refers add
    obtain ⟨inv, sub', gathers, same'⟩ := specs.mergeProperties inv gathers h
    rw [List.append_assoc] at gathers
    exact ⟨inv, List.Subset.trans sub sub', gathers, same'.trans same⟩

theorem branchRefs_step {opened : List String} {s s' : State} {name : String} {place : Nat}
    {branches : List Nat} {types : List TypeRef} (inv : Inv g opened s)
    (h : branchRefs g (budget + 1) name place branches s = .ok (types, s')) :
    Inv g opened s' ∧ s.names ⊆ s'.names ∧ List.Forall₂ (Refers g s'.names) branches types := by
  cases branches with
  | nil =>
    rw [branchRefs] at h
    swap; exact Nat.succ_ne_zero _
    cases h
    exact ⟨inv, List.Subset.refl _, .nil⟩
  | cons b rest =>
    rw [branchRefs] at h
    obtain ⟨t, s₁, run, h⟩ := Outcome.bind_run_eq_ok.mp h
    obtain ⟨more, s₂, run', h⟩ := Outcome.bind_run_eq_ok.mp h
    cases h
    obtain ⟨inv, sub, refers⟩ := specs.typeRef inv run
    obtain ⟨inv, sub', types⟩ := specs.branchRefs inv run'
    exact ⟨inv, List.Subset.trans sub sub', .cons (refers.mono sub') types⟩

theorem deferUnion_step {opened : List String} {s s' : State} {i : Nat} {name : String} {u : Unit}
    (inv : Inv g (name :: opened) s) (owned : (i, name) ∈ s.names)
    (kind : (node g i).kind = .composition) (several : singleBranch (node g i) = none)
    (allOf : (node g i).allOf = []) (h : deferUnion g (budget + 1) i name s = .ok (u, s')) :
    Inv g opened s' ∧ s.names ⊆ s'.names := by
  rw [deferUnion] at h
  obtain ⟨branches, s₁, run, h⟩ := Outcome.bind_run_eq_ok.mp h
  cases h
  obtain ⟨inv, sub, refers⟩ := specs.branchRefs inv run
  refine ⟨inv.queue (u := { name, node := i, branches }) (sub owned) ?_, sub⟩
  exact ⟨kind, several, allOf, refers⟩

theorem collectBranches_step {opened : List String} {s s' : State} {root : String}
    {branches : List Nat} {owner : String} {visiting : List Nat} {m m' : Merged}
    {sources : List (String × Nat)} (inv : Inv g opened s) (gathers : Gathers g s.names sources m)
    (h : collectBranches g (budget + 1) root branches owner visiting m s = .ok (m', s')) :
    Inv g opened s' ∧ s.names ⊆ s'.names ∧
      ∃ parts, (∀ j, j ∈ parts ↔ ∃ b ∈ branches, Part g b j) ∧
        Collects g s'.names sources m parts m' := by
  cases branches with
  | nil =>
    rw [collectBranches] at h
    swap; exact Nat.succ_ne_zero _
    cases h
    refine ⟨inv, List.Subset.refl _, [], by simp, ?_, by simp, List.forall_mem_nil _⟩
    rwa [List.flatMap_nil, List.append_nil]
  | cons b rest =>
    rw [collectBranches] at h
    obtain ⟨m₁, s₁, run, h⟩ := Outcome.bind_run_eq_ok.mp h
    obtain ⟨inv, sub, parts, first, collects⟩ := specs.collectFields inv gathers run
    obtain ⟨inv, sub', parts', others, collects'⟩ := specs.collectBranches inv collects.gathers h
    refine ⟨inv, List.Subset.trans sub sub', parts ++ parts', fun j => ?_,
      collects.trans collects'⟩
    rw [List.mem_append, first, others, List.exists_mem_cons_iff]

theorem collectFields_step {opened : List String} {s s' : State} {root : String} {i : Nat}
    {owner : String} {visiting : List Nat} {m m' : Merged} {sources : List (String × Nat)}
    (inv : Inv g opened s) (gathers : Gathers g s.names sources m)
    (h : collectFields g (budget + 1) root i owner visiting m s = .ok (m', s')) :
    Inv g opened s' ∧ s.names ⊆ s'.names ∧
      ∃ parts, (∀ j, j ∈ parts ↔ Part g i j) ∧ Collects g s'.names sources m parts m' := by
  rw [collectFields] at h
  dsimp only at h
  split at h
  · obtain ⟨_, _, run, -⟩ := Outcome.bind_run_eq_ok.mp h
    exact absurd run Outcome.throw_run_ne_ok
  have start := gathers.require (node g i).required
  cases kind : (node g i).kind with
  | ref =>
    simp only [kind] at h
    obtain ⟨j, s₁, run, h⟩ := Outcome.bind_run_eq_ok.mp h
    obtain ⟨target, rfl⟩ := Outcome.lift_run_eq_ok.mp run
    have own : Collects g s.names sources m [i] _ :=
      .single (by simp [Mergeable, kind]) (by simpa [partProperties, kind] using start) rfl
    obtain ⟨inv, sub, parts, iff, collects⟩ := specs.collectFields inv own.gathers h
    refine ⟨inv, sub, i :: parts, fun k => ?_, own.trans collects⟩
    rw [List.mem_cons, iff, part_ref_iff kind (refTarget_ok target)]
  | composition =>
    simp only [kind] at h
    split at h
    · obtain ⟨_, _, run, -⟩ := Outcome.bind_run_eq_ok.mp h
      exact absurd run Outcome.throw_run_ne_ok
    next none =>
    obtain ⟨m₁, s₁, run, h⟩ := Outcome.bind_run_eq_ok.mp h
    obtain ⟨inv, sub, gathers, same⟩ := specs.mergeProperties inv start run
    have own : Collects g s₁.names sources m [i] m₁ :=
      .single (by simpa [Mergeable, kind] using none)
        (by simpa only [partProperties, kind] using gathers) same
    obtain ⟨inv, sub', parts, iff, collects⟩ := specs.collectBranches inv own.gathers h
    refine ⟨inv, List.Subset.trans sub sub', i :: parts, fun k => ?_, own.trans collects⟩
    rw [List.mem_cons, iff, part_composition_iff kind]
  | object =>
    simp only [kind] at h
    obtain ⟨inv, sub, gathers, same⟩ := specs.mergeProperties inv start h
    refine ⟨inv, sub, [i], fun k => ?_, .single (by simp [Mergeable, kind]) ?_ same⟩
    · rw [List.mem_singleton, part_plain_iff (by simp [kind]) (by simp [kind])]
    · simpa only [partProperties, kind] using gathers
  | any =>
    simp only [kind] at h
    cases h
    refine ⟨inv, List.Subset.refl _, [i], fun k => ?_, .single (by simp [Mergeable, kind]) ?_ rfl⟩
    · rw [List.mem_singleton, part_plain_iff (by simp [kind]) (by simp [kind])]
    · simpa [partProperties, kind] using start
  | _ =>
    simp only [kind] at h
    exact absurd h Outcome.throw_run_ne_ok

/-- A node that stands inside another type gets an entry of its own. -/
theorem hoist_step {opened : List String} {s s' : State} {i : Nat} {hint : String} {t : TypeRef}
    (inv : Inv g opened s) (h : (do
      let name ← reserveName i (TypeName.sanitize hint)
      compileNamed g budget i name
      return .named name : Build TypeRef) s = .ok (t, s')) :
    Inv g opened s' ∧ s.names ⊆ s'.names ∧ Refers g s'.names i t := by
  obtain ⟨name, s₁, reserve, rest⟩ := Outcome.bind_run_eq_ok.mp h
  rw [reserveName_run, Except.ok.injEq, Prod.mk.injEq] at reserve
  obtain ⟨u, s₂, run, result⟩ := Outcome.bind_run_eq_ok.mp rest
  rw [Outcome.pure_run_eq_ok, Prod.mk.injEq] at result
  obtain ⟨rfl, rfl⟩ := result
  obtain ⟨rfl, rfl⟩ := reserve
  have free := TypeName.firstFree_not_mem s.taken (TypeName.sanitize hint)
  obtain ⟨inv, sub⟩ := specs.compileNamed (inv.own i free) List.mem_cons_self run
  have sub' := List.Subset.trans (List.subset_cons_self _ _) sub
  exact ⟨inv, sub', .named (sub List.mem_cons_self)⟩

theorem typeRef_step {opened : List String} {s s' : State} {i : Nat} {hint : String} {t : TypeRef}
    (inv : Inv g opened s) (h : typeRef g (budget + 1) i hint s = .ok (t, s')) :
    Inv g opened s' ∧ s.names ⊆ s'.names ∧ Refers g s'.names i t := by
  rw [typeRef] at h
  obtain ⟨_, _, run, h⟩ := Outcome.bind_run_eq_ok.mp h
  cases run
  cases owned : s.names.lookup i with
  | some name =>
    simp only [owned] at h
    cases h
    exact ⟨inv, List.Subset.refl _, .named (Outcome.mem_of_lookup owned)⟩
  | none =>
    simp only [owned] at h
    cases branch : singleBranch (node g i) with
    | some b =>
      simp only [branch] at h
      obtain ⟨inv, sub, refers⟩ := specs.typeRef inv h
      exact ⟨inv, sub, .single branch refers⟩
    | none =>
      simp only [branch] at h
      cases kind : (node g i).kind with
      | ref =>
        simp only [kind] at h
        obtain ⟨j, s₁, run, h⟩ := Outcome.bind_run_eq_ok.mp h
        obtain ⟨target, rfl⟩ := Outcome.lift_run_eq_ok.mp run
        obtain ⟨inv, sub, refers⟩ := specs.typeRef inv h
        exact ⟨inv, sub, .ref kind (refTarget_ok target) refers⟩
      | primitive p =>
        simp only [kind] at h
        cases h
        exact ⟨inv, List.Subset.refl _, .primitive kind⟩
      | any =>
        simp only [kind] at h
        cases h
        exact ⟨inv, List.Subset.refl _, .any kind⟩
      | constant =>
        simp only [kind] at h
        obtain ⟨l, s₁, run, h⟩ := Outcome.bind_run_eq_ok.mp h
        obtain ⟨literal, rfl⟩ := Outcome.lift_run_eq_ok.mp run
        cases h
        exact ⟨inv, List.Subset.refl _, .constant kind literal⟩
      | enumeration =>
        simp only [kind] at h
        split at h
        · next one =>
          obtain ⟨⟨values, descriptions⟩, s₁, run, h⟩ := Outcome.bind_run_eq_ok.mp h
          obtain ⟨literals, rfl⟩ := Outcome.lift_run_eq_ok.mp run
          cases values with
          | nil => exact hoist_step specs inv h
          | cons l more =>
            cases h
            exact ⟨inv, List.Subset.refl _, .enumeration kind one literals⟩
        · exact hoist_step specs inv h
      | array =>
        simp only [kind] at h
        obtain ⟨element, s₁, run, h⟩ := Outcome.bind_run_eq_ok.mp h
        cases h
        obtain ⟨inv, sub, refers⟩ := specs.itemsRef inv run
        refine ⟨inv, sub, ?_⟩
        cases items : (node g i).items with
        | some j =>
          simp only [ItemsRefer, items] at refers
          exact .array kind items refers
        | none =>
          simp only [ItemsRefer, items] at refers
          exact refers ▸ .anyArray kind items
      | object =>
        simp only [kind] at h
        split at h
        · next none =>
          have properties := List.isEmpty_iff.mp none
          cases additional : (node g i).additional with
          | some j =>
            simp only [additional] at h
            obtain ⟨element, s₁, run, h⟩ := Outcome.bind_run_eq_ok.mp h
            cases h
            obtain ⟨inv, sub, refers⟩ := specs.typeRef inv run
            exact ⟨inv, sub, .map kind properties additional refers⟩
          | none =>
            simp only [additional] at h
            cases h
            exact ⟨inv, List.Subset.refl _, .anyMap kind properties additional⟩
        · exact hoist_step specs inv h
      | composition =>
        simp only [kind] at h
        exact hoist_step specs inv h

theorem compileNamed_step {opened : List String} {s s' : State} {i : Nat} {name : String} {u : Unit}
    (inv : Inv g (name :: opened) s) (owned : (i, name) ∈ s.names)
    (h : compileNamed g (budget + 1) i name s = .ok (u, s')) :
    Inv g opened s' ∧ s.names ⊆ s'.names := by
  rw [compileNamed] at h
  dsimp only at h
  cases kind : (node g i).kind with
  | ref =>
    simp only [kind] at h
    obtain ⟨j, s₁, read, h⟩ := Outcome.bind_run_eq_ok.mp h
    obtain ⟨target, rfl⟩ := Outcome.lift_run_eq_ok.mp read
    obtain ⟨t, s₁, run, h⟩ := Outcome.bind_map_map_run_eq_ok.mp h
    obtain ⟨inv, sub, refers⟩ := specs.typeRef inv run
    exact inv.finish owned sub (.ref kind (refTarget_ok target) refers) h
  | composition =>
    simp only [kind] at h
    cases branch : singleBranch (node g i) with
    | some b =>
      simp only [branch] at h
      obtain ⟨t, s₁, run, h⟩ := Outcome.bind_map_map_run_eq_ok.mp h
      obtain ⟨inv, sub, refers⟩ := specs.typeRef inv run
      exact inv.finish owned sub (.single branch refers) h
    | none =>
      simp only [branch] at h
      split at h
      · next some =>
        split at h
        · obtain ⟨_, _, run, -⟩ := Outcome.bind_run_eq_ok.mp h
          exact absurd run Outcome.throw_run_ne_ok
        obtain ⟨m, s₁, run, h⟩ := Outcome.bind_run_eq_ok.mp h
        obtain ⟨inv, sub, parts, iff, collects⟩ := specs.collectFields inv (Gathers.empty g _) run
        have merged : MergedOf g s₁.names i parts m :=
          ⟨iff, collects.mergeable, collects.gathers, collects.required⟩
        have allOf : (node g i).allOf ≠ [] := by simpa using some
        exact inv.finish owned sub (.merged kind branch allOf merged) h
      · next none =>
        obtain ⟨u', s₁, run, h⟩ := Outcome.bind_run_eq_ok.mp h
        cases h
        exact specs.deferUnion inv owned kind branch (by simpa using none) run
  | object =>
    simp only [kind] at h
    cases properties : (node g i).properties with
    | nil =>
      cases additional : (node g i).additional with
      | some j =>
        simp only [properties, additional] at h
        obtain ⟨_, s₁, outer, h⟩ := Outcome.bind_map_map_run_eq_ok.mp h
        obtain ⟨t, run, rfl⟩ := Outcome.map_run_eq_ok.mp outer
        obtain ⟨inv, sub, refers⟩ := specs.typeRef inv run
        exact inv.finish owned sub (.map kind properties additional refers) h
      | none =>
        simp only [properties, additional] at h
        obtain ⟨fields, s₁, run, h⟩ := Outcome.bind_map_map_run_eq_ok.mp h
        obtain ⟨inv, sub, each⟩ := specs.recordFields inv run
        exact inv.finish owned sub (.record kind (fun _ => additional) (properties ▸ each)) h
    | cons p rest =>
      simp only [properties] at h
      obtain ⟨fields, s₁, run, h⟩ := Outcome.bind_map_map_run_eq_ok.mp h
      obtain ⟨inv, sub, each⟩ := specs.recordFields inv run
      have declared : (node g i).properties ≠ [] := by
        rw [properties]
        exact List.cons_ne_nil _ _
      exact inv.finish owned sub
        (.record kind (fun none => absurd none declared) (properties ▸ each)) h
  | array =>
    simp only [kind] at h
    obtain ⟨t, s₁, run, h⟩ := Outcome.bind_map_map_run_eq_ok.mp h
    obtain ⟨inv, sub, refers⟩ := specs.itemsRef inv run
    exact inv.finish owned sub (.array kind refers) h
  | enumeration =>
    simp only [kind] at h
    obtain ⟨⟨values, descriptions⟩, s₁, read, h⟩ := Outcome.bind_run_eq_ok.mp h
    obtain ⟨literals, rfl⟩ := Outcome.lift_run_eq_ok.mp read
    exact inv.finish owned (List.Subset.refl _) (.enumeration kind literals) h
  | constant =>
    simp only [kind] at h
    obtain ⟨l, s₁, read, h⟩ := Outcome.bind_run_eq_ok.mp h
    obtain ⟨literal, rfl⟩ := Outcome.lift_run_eq_ok.mp read
    exact inv.finish owned (List.Subset.refl _) (.constant kind literal) h
  | primitive p =>
    simp only [kind] at h
    exact inv.finish owned (List.Subset.refl _) (.primitive kind) h
  | any =>
    simp only [kind] at h
    exact inv.finish owned (List.Subset.refl _) (.any kind) h

end Step

/-- Every function of the compiler follows the rules, by induction on the budget. -/
theorem specs (g : Graph) (budget : Nat) : Specs g budget := by
  induction budget with
  | zero =>
    refine ⟨fun _ _ h => ?_, fun _ h => ?_, fun _ h => ?_, fun _ h => ?_, fun _ _ h => ?_,
      fun _ _ h => ?_, fun _ _ h => ?_, fun _ _ _ _ _ h => ?_, fun _ h => ?_⟩
    · rw [compileNamed] at h
      exact absurd h Outcome.throw_run_ne_ok
    · rw [typeRef] at h
      exact absurd h Outcome.throw_run_ne_ok
    · rw [itemsRef] at h
      exact absurd h Outcome.throw_run_ne_ok
    · rw [recordFields] at h
      exact absurd h Outcome.throw_run_ne_ok
    · rw [collectFields] at h
      exact absurd h Outcome.throw_run_ne_ok
    · rw [collectBranches] at h
      exact absurd h Outcome.throw_run_ne_ok
    · rw [mergeProperties] at h
      exact absurd h Outcome.throw_run_ne_ok
    · rw [deferUnion] at h
      exact absurd h Outcome.throw_run_ne_ok
    · rw [branchRefs] at h
      exact absurd h Outcome.throw_run_ne_ok
  | succ budget ih =>
    exact ⟨compileNamed_step ih, typeRef_step ih, itemsRef_step ih, recordFields_step ih,
      collectFields_step ih, collectBranches_step ih, mergeProperties_step ih, deferUnion_step ih,
      branchRefs_step ih⟩

theorem Inv.perm {g : Graph} {opened opened' : List String} {s : State} (inv : Inv g opened s)
    (perm : opened.Perm opened') : Inv g opened' s := by
  refine ⟨inv.taken, inv.distinct, inv.sorted, perm.nodup_iff.mp inv.openedOnce, inv.queuedOnce,
    fun name mem => inv.openedTaken name (perm.mem_iff.mpr mem), inv.enteredTaken,
    inv.queuedTaken, fun i name mem => ?_⟩
  cases inv.status i name mem with
  | opened mem entry queue => exact .opened (perm.mem_iff.mp mem) entry queue
  | entered closed entry named queue defines =>
    exact .entered (fun mem => closed (perm.mem_iff.mpr mem)) entry named queue defines
  | queued closed entry mem named owner defers =>
    exact .queued (fun mem => closed (perm.mem_iff.mpr mem)) entry mem named owner defers

/-- The names that are given out before anything is compiled. -/
def reserved (g : Graph) : Names :=
  match reserveNames g {} with
  | .ok (names, _) => names
  | .error _ => []

theorem reserve_ok {g : Graph} {opened : List String} {s s' : State} {nodes : List Nat}
    {names : Names} (inv : Inv g opened s)
    (h : (nodes.mapM fun i => do
      return (i, ← reserveName i (TypeName.preferred (node g i))) : Build Names) s =
        .ok (names, s')) :
    Inv g (names.map Prod.snd ++ opened) s' ∧ s.names ⊆ s'.names ∧ names ⊆ s'.names := by
  induction nodes generalizing opened s names with
  | nil =>
    rw [List.mapM_nil] at h
    cases h
    exact ⟨inv, List.Subset.refl _, List.nil_subset _⟩
  | cons i nodes ih =>
    rw [List.mapM_cons] at h
    obtain ⟨_, _, first, h⟩ := Outcome.bind_run_eq_ok.mp h
    obtain ⟨rest, s₂, run, h⟩ := Outcome.bind_run_eq_ok.mp h
    cases h
    cases first
    have free := TypeName.firstFree_not_mem s.taken (TypeName.preferred (node g i))
    obtain ⟨inv, sub, owned⟩ := ih (inv.own i free) run
    refine ⟨inv.perm List.perm_middle, List.Subset.trans (List.subset_cons_self _ _) sub, ?_⟩
    exact List.cons_subset.mpr ⟨sub List.mem_cons_self, owned⟩

theorem compileAll_ok {g : Graph} {budget : Nat} {s s' : State} {names : Names} {u : Unit}
    (inv : Inv g (names.map Prod.snd) s) (owned : names ⊆ s.names)
    (h : (names.forM fun p => compileNamed g budget p.1 p.2) s = .ok (u, s')) :
    Inv g [] s' ∧ s.names ⊆ s'.names := by
  induction names generalizing s with
  | nil =>
    cases h
    exact ⟨inv, List.Subset.refl _⟩
  | cons p names ih =>
    rw [List.forM_eq_forM, List.forM_cons] at h
    obtain ⟨u₁, s₁, run, h⟩ := Outcome.bind_run_eq_ok.mp h
    obtain ⟨first, owned⟩ := List.cons_subset.mp owned
    obtain ⟨inv, sub⟩ := (specs g budget).compileNamed inv first run
    obtain ⟨inv, sub'⟩ := ih inv (List.Subset.trans owned sub) h
    exact ⟨inv, List.Subset.trans sub sub'⟩

/-- After all entries are built no name is open, and the names reserved first are still owned. -/
theorem buildEntries_ok {g : Graph} {s : State} {u : Unit} (h : buildEntries g {} = .ok (u, s)) :
    Inv g [] s ∧ reserved g ⊆ s.names := by
  rw [buildEntries] at h
  obtain ⟨names, s₁, run, h⟩ := Outcome.bind_run_eq_ok.mp h
  obtain ⟨inv, -, owned⟩ := reserve_ok (Inv.start g) run
  rw [List.append_nil] at inv
  obtain ⟨inv, sub⟩ := compileAll_ok inv owned h
  refine ⟨inv, ?_⟩
  rw [reserved, run]
  exact List.Subset.trans owned sub

end TypedArchive.Compile
