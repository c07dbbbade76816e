import TypedArchive.Proofs.Compile.Advance
import TypedArchive.Proofs.Schema.Load

/-! Who owns which entry. While a loaded graph is compiled each node is given at most one name,
every name is an identifier that no other node has, and an entry tells the node that owns its
name. -/

namespace TypedArchive.Compile

/-- A catalog entry stands under its own name and tells the node that owns the name. -/
def Entered (g : Graph) (names : Names) (p : String × Entry) : Prop :=
  p.2.name = p.1 ∧ ∃ i, (i, p.1) ∈ names ∧ p.2.origin = (node g i).id

theorem Entered.mono {g : Graph} {names more : Names} (sub : names ⊆ more) {p : String × Entry}
    (h : Entered g names p) : Entered g more p := by
  obtain ⟨named, i, owned, origin⟩ := h
  exact ⟨named, i, sub owned, origin⟩

theorem not_mem_of_lookup_eq_none {names : Names} {i : Nat} (h : names.lookup i = none) :
    i ∉ names.map Prod.fst := by
  intro mem
  obtain ⟨p, owner, rfl⟩ := List.mem_map.mp mem
  simpa using List.lookup_eq_none_iff.mp h p owner

theorem lt_of_kind {g : Graph} {i : Nat} (kind : (node g i).kind ≠ .any) : i < g.size := by
  by_contra ge
  rw [node, Graph.node?, Array.getElem?_eq_none (Nat.le_of_not_lt ge)] at kind
  exact kind rfl

/-- Only a node of the graph needs an entry. -/
theorem lt_of_hoists {g : Graph} {i : Nat} (needs : hoists (node g i) = true) : i < g.size := by
  refine lt_of_kind fun kind => ?_
  simp [hoists, kind] at needs

/-- What holds of the names and entries in every state of compilation. -/
structure Owned (g : Graph) (s : State) : Prop where
  identifiers : ∀ p ∈ s.names, TypeName.IsIdentifier p.2
  once : (s.names.map Prod.fst).Nodup
  distinct : (s.names.map Prod.snd).Nodup
  taken : s.names.map Prod.snd ⊆ s.taken
  nodes : ∀ p ∈ s.names, p.1 < g.size
  sorted : s.catalog.entries.Sorted
  entries : ∀ p ∈ s.catalog.entries, Entered g s.names p

section Owned

variable {g : Graph} {s s' : State}

theorem Owned.start (g : Graph) : Owned g {} where
  identifiers := List.forall_mem_nil _
  once := List.nodup_nil
  distinct := List.nodup_nil
  taken := List.nil_subset _
  nodes := List.forall_mem_nil _
  sorted := Assoc.sorted_nil
  entries := List.forall_mem_nil _

theorem Owned.own (owned : Owned g s) {i : Nat} {name : String}
    (fresh : i ∉ s.names.map Prod.fst) (free : name ∉ s.taken) (lt : i < g.size)
    (identifier : TypeName.IsIdentifier name) : Owned g (s.own i name) where
  identifiers := List.forall_mem_cons.mpr ⟨identifier, owned.identifiers⟩
  once := owned.once.cons fresh
  distinct := owned.distinct.cons fun mem => free (owned.taken mem)
  taken := List.cons_subset_cons _ owned.taken
  nodes := List.forall_mem_cons.mpr ⟨lt, owned.nodes⟩
  sorted := owned.sorted
  entries p mem := (owned.entries p mem).mono (List.subset_cons_self _ _)

theorem Owned.enter (owned : Owned g s) {i : Nat} {e : Entry} (mem : (i, e.name) ∈ s.names)
    (origin : e.origin = (node g i).id) : Owned g (s.enter e) where
  identifiers := owned.identifiers
  once := owned.once
  distinct := owned.distinct
  taken := owned.taken
  nodes := owned.nodes
  sorted := owned.sorted.insert
  entries p hp := by
    rcases Assoc.mem_insert hp with rfl | hp
    · exact ⟨rfl, i, mem, origin⟩
    · exact owned.entries p hp

theorem Owned.queue (owned : Owned g s) (u : PendingUnion) : Owned g (s.queue u) where
  identifiers := owned.identifiers
  once := owned.once
  distinct := owned.distinct
  taken := owned.taken
  nodes := owned.nodes
  sorted := owned.sorted
  entries := owned.entries

theorem Owned.step (owned : Owned g s) (h : Step g s s') : Owned g s' := by
  cases h with
  | own hint unnamed needs =>
    exact owned.own (not_mem_of_lookup_eq_none unnamed) (TypeName.firstFree_not_mem _ _)
      (lt_of_hoists needs)
      (TypeName.firstFree_isIdentifier s.taken (TypeName.sanitize_isIdentifier hint))
  | enter owner origin => exact owned.enter owner origin
  | queue => exact owned.queue _

theorem Owned.later (owned : Owned g s) (h : Later g s s') : Owned g s' := by
  induction h with
  | refl => exact owned
  | tail _ step ih => exact ih.step step

end Owned

section Named

variable {g : Graph} (loaded : g.Loaded)

include loaded

theorem namedNodes_nodup : (namedNodes g).Nodup := loaded.inIdOrder_nodup.filter _

theorem lt_of_mem_namedNodes {i : Nat} (mem : i ∈ namedNodes g) : i < g.size :=
  loaded.lt_of_mem_inIdOrder (List.mem_filter.mp mem).1

variable (ids : (g.nodes.toList.map Node.id).Nodup)

include ids

theorem mem_namedNodes {i : Nat} : i ∈ namedNodes g ↔ i < g.size ∧
    (((node g i).pointer = [] ∧ (node g i).kind ≠ .any) ∨ (node g i).isDefinition = true ∨
      ∃ j, j < g.size ∧ g.refTarget? j = some i) := by
  have range (k) : k ∈ g.inIdOrder ↔ k < g.size := by
    rw [(loaded.inIdOrder_perm ids).mem_iff, List.mem_range]
  simp [namedNodes, range, Node.isRoot, Node.hasContent, List.mem_filterMap, or_assoc]

end Named

theorem reserve_owned {g : Graph} {nodes : List Nat} {s : State} (owned : Owned g s)
    (once : nodes.Nodup) (fresh : ∀ i ∈ nodes, i ∉ s.names.map Prod.fst)
    (lt : ∀ i ∈ nodes, i < g.size) : ∃ names s', (nodes.mapM fun i => do
      return (i, ← reserveName i (TypeName.preferred (node g i))) : Build Names) s =
        .ok (names, s') ∧ Owned g s' ∧ names ⊆ s'.names ∧ s.names ⊆ s'.names ∧
          names.map Prod.fst = nodes := by
  induction nodes generalizing s with
  | nil => exact ⟨[], s, rfl, owned, List.nil_subset _, List.Subset.refl _, rfl⟩
  | cons i nodes ih =>
    obtain ⟨other, once⟩ := List.nodup_cons.mp once
    rw [List.forall_mem_cons] at fresh lt
    have owned' := owned.own fresh.1
      (TypeName.firstFree_not_mem s.taken (TypeName.preferred (node g i))) lt.1
      (TypeName.firstFree_isIdentifier s.taken (TypeName.preferred_isIdentifier (node g i)))
    have fresh' (j) (mem : j ∈ nodes) : j ∉ i :: s.names.map Prod.fst :=
      List.not_mem_cons_of_ne_of_not_mem (fun eq => other (eq ▸ mem)) (fresh.2 j mem)
    obtain ⟨names, s', run, owned'', reserved, sub, same⟩ := ih owned' once fresh' lt.2
    refine ⟨(i, _) :: names, s', ?_, owned'',
      List.cons_subset.mpr ⟨sub List.mem_cons_self, reserved⟩,
      List.Subset.trans (List.subset_cons_self _ _) sub, congrArg (i :: ·) same⟩
    rw [List.mapM_cons]
    exact Outcome.bind_run_eq_ok.mpr ⟨_, _, rfl, Outcome.bind_run_eq_ok.mpr ⟨_, _, run, rfl⟩⟩

/-- The nodes that own an entry from the start are named without fail. -/
theorem reserveNames_owned {g : Graph} (loaded : g.Loaded) :
    ∃ names s, reserveNames g {} = .ok (names, s) ∧ Owned g s ∧ names ⊆ s.names ∧
      names.map Prod.fst = namedNodes g := by
  obtain ⟨names, s, run, owned, reserved, -, nodes⟩ := reserve_owned (Owned.start g)
    (namedNodes_nodup loaded) (fun _ _ => List.not_mem_nil)
    fun i mem => lt_of_mem_namedNodes loaded mem
  exact ⟨names, s, run, owned, reserved, nodes⟩

theorem compileAll_advances (g : Graph) (budget : Nat) {names : Names} {s : State}
    (owned : names ⊆ s.names) :
    Advances g (names.forM fun p => compileNamed g budget p.1 p.2) s fun _ _ => True := by
  induction names generalizing s with
  | nil => exact .pure trivial
  | cons p names ih =>
    obtain ⟨first, rest⟩ := List.cons_subset.mp owned
    rw [List.forM_eq_forM, List.forM_cons]
    refine ((allAdvance g budget).compileNamed first).bind fun _ s' later _ => ?_
    exact ih (List.Subset.trans rest later.subset)

theorem buildEntries_owned {g : Graph} (loaded : g.Loaded) {u : Unit} {s : State}
    (h : buildEntries g {} = .ok (u, s)) : Owned g s ∧ namedNodes g ⊆ s.names.map Prod.fst := by
  obtain ⟨names, s₁, run, owned, reserved, nodes⟩ := reserveNames_owned loaded
  rw [buildEntries] at h
  obtain ⟨_, _, first, h⟩ := Outcome.bind_run_eq_ok.mp h
  cases run.symm.trans first
  obtain ⟨later, -⟩ := compileAll_advances g _ reserved h
  rw [← nodes]
  exact ⟨owned.later later, List.map_subset _ (List.Subset.trans reserved later.subset)⟩

end TypedArchive.Compile
