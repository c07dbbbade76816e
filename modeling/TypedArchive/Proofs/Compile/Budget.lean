import Mathlib.Algebra.BigOperators.Group.Finset.Basic
import Mathlib.Algebra.Group.Action.Defs
import Mathlib.Algebra.Order.BigOperators.Group.List
import Mathlib.Algebra.Order.Group.Nat
import Mathlib.Order.Interval.Finset.Nat
import TypedArchive.Proofs.Compile.WellFormed
import TypedArchive.Proofs.Schema.Forest

/-! The budget of compilation is never used up. Between two nodes that are given a name a chain of
calls goes down the forest of schemas, or along an `allOf` on which no node is visited twice; and a
name is given to each node once. -/

namespace TypedArchive.Compile

/-- A budget ran out. A circle that was found has a way round it. -/
def CutShort (e : SchemaError) : Prop := ∃ id, e = .circularReference id []

/-- A step comes to an end that a larger budget does not change, and keeps the names. -/
def Ends {α : Type} (x y : Build α) (s : State) : Prop :=
  x s = y s ∧ (∀ e, x s = .error e → ¬CutShort e) ∧
    ∀ a s', x s = .ok (a, s') → s.names ⊆ s'.names

section Ends

variable {α β : Type} {s : State}

theorem Ends.pure (a : α) : Ends (pure a) (pure a) s := by
  refine ⟨rfl, fun e h => ?_, fun a' s' h => ?_⟩
  · cases h
  · cases h
    exact List.Subset.refl _

theorem Ends.fail {e : SchemaError} (found : ¬CutShort e) :
    Ends (fail e : Build α) (fail e) s := by
  refine ⟨rfl, fun e' h => ?_, fun a s' h => ?_⟩
  · cases h
    exact found
  · cases h

theorem Ends.bind {x y : Build α} {f f' : α → Build β} (hx : Ends x y s)
    (hf : ∀ a s', s.names ⊆ s'.names → Ends (f a) (f' a) s') : Ends (x >>= f) (y >>= f') s := by
  obtain ⟨same, fails, ends⟩ := hx
  change (x s >>= fun p => f p.1 p.2) = (y s >>= fun p => f' p.1 p.2) ∧
    (∀ e, (x s >>= fun p => f p.1 p.2) = .error e → _) ∧
      ∀ a s', (x s >>= fun p => f p.1 p.2) = .ok (a, s') → _
  rw [← same]
  cases run : x s with
  | error e =>
    refine ⟨rfl, fun e' h => ?_, fun b s' h => ?_⟩
    · cases h
      exact fails e run
    · cases h
  | ok p =>
    have sub := ends p.1 p.2 run
    obtain ⟨same', fails', ends'⟩ := hf p.1 p.2 sub
    exact ⟨same', fails', fun b s' h => List.Subset.trans sub (ends' b s' h)⟩

theorem Ends.lift_bind {x : Except SchemaError α} {f f' : α → Build β}
    (found : ∀ e, x = .error e → ¬CutShort e) (hf : ∀ a, x = .ok a → Ends (f a) (f' a) s) :
    Ends (liftM x >>= f) (liftM x >>= f') s := by
  cases x with
  | error e => exact Ends.fail (α := β) (found e rfl)
  | ok a => exact hf a rfl

theorem Ends.fail_bind {e : SchemaError} {f f' : α → Build β} (found : ¬CutShort e) :
    Ends (Compile.fail e >>= f) (Compile.fail e >>= f') s :=
  Ends.fail (α := β) found

theorem Ends.get_bind {f f' : State → Build α} (h : Ends (f s) (f' s) s) :
    Ends (get >>= f) (get >>= f') s := h

theorem Ends.map {x y : Build α} (f : α → β) (hx : Ends x y s) : Ends (f <$> x) (f <$> y) s :=
  hx.bind fun _ _ _ => .pure _

/-- A change to the rest of the state uses no budget. -/
theorem Ends.modify {f : State → State} (names : (f s).names = s.names) :
    Ends (modify f : Build Unit) (modify f) s := by
  refine ⟨rfl, fun e h => ?_, fun u s' h => ?_⟩
  · cases h
  · cases h
    exact names ▸ List.Subset.refl _

/-- A result that is wrapped twice before it is used. -/
theorem Ends.map_map_bind {γ δ : Type} {x y : Build α} {f : α → β} {f' : β → γ} {k : γ → Build δ}
    (hx : Ends x y s) (hk : ∀ a s', s.names ⊆ s'.names → Ends (k (f' (f a))) (k (f' (f a))) s') :
    Ends ((f' <$> f <$> x) >>= k) ((f' <$> f <$> y) >>= k) s := by
  simp only [bind_map_left]
  exact hx.bind hk

end Ends

section Measures

variable (g : Graph)

/-- Every target of a reference has a name. -/
def Ready (s : State) : Prop :=
  ∀ i target, g.refTarget? i = some target → target ∈ s.names.map Prod.fst

/-- The nodes without a name. -/
def unnamed (s : State) : Finset Nat :=
  (Finset.range g.size).filter fun i => i ∉ s.names.map Prod.fst

/-- The part of a budget that is set aside for the nodes that may still be given a name. -/
def room (s : State) : Nat := (unnamed g s).card * (8 * g.size + 16)

/-- The steps along an `allOf` over nodes that have not been visited. -/
def steps (visiting : List Nat) : Nat :=
  ∑ i ∈ (Finset.range g.size).filter (· ∉ visiting), ((node g i).allOf.length + 2)

variable {g} {s s' : State}

theorem Ready.mono (ready : Ready g s) (sub : s.names ⊆ s'.names) : Ready g s' :=
  fun i target leads => List.map_subset _ sub (ready i target leads)

theorem room_mono (sub : s.names ⊆ s'.names) : room g s' ≤ room g s := by
  refine Nat.mul_le_mul_right _ (Finset.card_le_card fun i mem => ?_)
  rw [unnamed, Finset.mem_filter] at mem ⊢
  exact ⟨mem.1, fun named => mem.2 (List.map_subset _ sub named)⟩

theorem room_le (s : State) : room g s ≤ g.size * (8 * g.size + 16) := by
  refine Nat.mul_le_mul_right _ ?_
  have card := Finset.card_le_card (Finset.filter_subset
    (fun i => i ∉ s.names.map Prod.fst) (Finset.range g.size))
  rwa [Finset.card_range] at card

theorem room_own {i : Nat} (lt : i < g.size) (fresh : i ∉ s.names.map Prod.fst) (name : String) :
    room g (s.own i name) + (8 * g.size + 16) = room g s := by
  have mem : i ∈ unnamed g s := Finset.mem_filter.mpr ⟨Finset.mem_range.mpr lt, fresh⟩
  have rest : unnamed g (s.own i name) = (unnamed g s).erase i := by
    ext j
    simp only [unnamed, State.own, List.map_cons, List.mem_cons, not_or, Finset.mem_erase,
      Finset.mem_filter]
    tauto
  rw [room, room, rest, ← Nat.succ_mul]
  exact congrArg (· * _) (Finset.card_erase_add_one mem)

theorem steps_visit {visiting : List Nat} {i : Nat} (lt : i < g.size) (fresh : i ∉ visiting) :
    steps g (visiting ++ [i]) + ((node g i).allOf.length + 2) = steps g visiting := by
  have mem : i ∈ (Finset.range g.size).filter (· ∉ visiting) :=
    Finset.mem_filter.mpr ⟨Finset.mem_range.mpr lt, fresh⟩
  have rest : (Finset.range g.size).filter (· ∉ visiting ++ [i]) =
      ((Finset.range g.size).filter (· ∉ visiting)).erase i := by
    ext j
    simp only [List.mem_append, List.mem_singleton, not_or, Finset.mem_erase, Finset.mem_filter]
    tauto
  rw [steps, steps, rest]
  exact Finset.sum_erase_add _ _ mem

end Measures

section Forest

variable {g : Graph} (planted : g.Planted [])

theorem map_node_range (g : Graph) : (List.range g.size).map (node g) = g.nodes.toList := by
  refine List.ext_getElem ?_ fun i lt lt' => ?_
  · rw [List.length_map, List.length_range, Array.length_toList, Graph.size]
  · rw [List.getElem_map, List.getElem_range, Array.getElem_toList]
    exact node_of_node? (Array.getElem?_eq_getElem lt')

include planted

theorem children_le : (g.nodes.toList.flatMap Node.children).length ≤ g.size := by
  have once := planted.once
  rw [List.append_nil] at once
  have sub : g.nodes.toList.flatMap Node.children ⊆ List.range g.size := fun i mem =>
    List.mem_range.mpr (planted.lt_of_mem (List.mem_append_left _ mem))
  have length := (once.subperm sub).length_le
  rwa [List.length_range] at length

theorem steps_le : steps g [] ≤ 3 * g.size := by
  have all : steps g [] = ((List.range g.size).map fun i => (node g i).allOf.length + 2).sum := by
    rw [steps, ← List.sum_toFinset _ List.nodup_range, List.toFinset_range]
    simp
  have bound : ((List.range g.size).map fun i => (node g i).allOf.length + 2).sum ≤
      ((List.range g.size).map fun i => (node g i).children.length + 2).sum := by
    refine List.sum_le_sum fun i _ => ?_
    rw [Node.children]
    simp only [List.length_append]
    omega
  have total : ((List.range g.size).map fun i => (node g i).children.length).sum ≤ g.size := by
    have le := children_le planted
    rw [List.length_flatMap, ← map_node_range, List.map_map] at le
    exact le
  have twos : ((List.range g.size).map fun i => (node g i).children.length + 2).sum =
      ((List.range g.size).map fun i => (node g i).children.length).sum + g.size * 2 := by
    rw [List.sum_map_add, List.map_const', List.sum_replicate, List.length_range, smul_eq_mul]
  rw [all]
  omega

theorem length_children_le {i : Nat} (lt : i < g.size) : (node g i).children.length ≤ g.size := by
  have mem : node g i ∈ g.nodes.toList :=
    Array.mem_toList_iff.mpr (Array.mem_of_getElem? (node?_of_lt lt))
  have le := children_le planted
  rw [List.length_flatMap] at le
  exact Nat.le_trans (List.le_sum_of_mem
    (List.mem_map_of_mem (f := fun n => n.children.length) mem)) le

theorem child_lt {i j : Nat} (lt : i < g.size) (child : j ∈ (node g i).children) : j < i :=
  planted.descends i _ (node?_of_lt lt) j child

end Forest

section Errors

theorem constantOf_found {n : Node} {e : SchemaError} (h : constantOf n = .error e) :
    ¬CutShort e := by
  obtain ⟨v, rfl⟩ := constantOf_error h
  exact nofun

theorem enumOf_found {n : Node} {e : SchemaError} (h : enumOf n = .error e) : ¬CutShort e := by
  obtain ⟨v, rfl⟩ := enumOf_error h
  exact nofun

theorem add_found {m : Merged} {root name : String} {type : TypeRef} {description : Option String}
    {e : SchemaError} (h : m.add root name type description = .error e) : ¬CutShort e := by
  obtain ⟨old, new, rfl⟩ := add_error h
  exact nofun

theorem refTarget_found {g : Graph} (loaded : g.Loaded) {i : Nat} (kind : (node g i).kind = .ref)
    {e : SchemaError} (h : refTarget g i = .error e) : ¬CutShort e := by
  obtain ⟨j, target⟩ := refTarget_ok_of_linked loaded kind
  rw [target] at h
  cases h

end Errors

/-- What budgets are enough for the functions of the compiler: so much for every node that may still
be named, and the way to the next of them. -/
structure Suffices (g : Graph) (more budget : Nat) : Prop where
  compileNamed : ∀ {i s} name, i < g.size → Ready g s → room g s + 6 * g.size + 3 ≤ budget →
    Ends (compileNamed g budget i name) (compileNamed g (budget + more) i name) s
  typeRef : ∀ {i s} hint, i < g.size → Ready g s → room g s + 2 * i + 2 ≤ budget →
    Ends (typeRef g budget i hint) (typeRef g (budget + more) i hint) s
  itemsRef : ∀ {i s} owner, i < g.size → Ready g s → room g s + 2 * i + 1 ≤ budget →
    Ends (itemsRef g budget (node g i) owner) (itemsRef g (budget + more) (node g i) owner) s
  recordFields : ∀ {properties s} n owner, (∀ p ∈ properties, p.2 < g.size) → Ready g s →
    room g s + 2 * g.size + properties.length + 1 ≤ budget →
    Ends (recordFields g budget n owner properties)
      (recordFields g (budget + more) n owner properties) s
  collectFields : ∀ {i visiting s} root owner m, i < g.size → Ready g s →
    room g s + 3 * g.size + steps g visiting + 2 ≤ budget →
    Ends (collectFields g budget root i owner visiting m)
      (collectFields g (budget + more) root i owner visiting m) s
  collectBranches : ∀ {branches visiting s} root owner m, (∀ b ∈ branches, b < g.size) →
    Ready g s → room g s + 3 * g.size + steps g visiting + branches.length + 3 ≤ budget →
    Ends (collectBranches g budget root branches owner visiting m)
      (collectBranches g (budget + more) root branches owner visiting m) s
  mergeProperties : ∀ {properties s} root owner m, (∀ p ∈ properties, p.2 < g.size) → Ready g s →
    room g s + 2 * g.size + properties.length + 1 ≤ budget →
    Ends (mergeProperties g budget root owner properties m)
      (mergeProperties g (budget + more) root owner properties m) s
  deferUnion : ∀ {i s} name, i < g.size → Ready g s → room g s + 3 * g.size + 2 ≤ budget →
    Ends (deferUnion g budget i name) (deferUnion g (budget + more) i name) s
  branchRefs : ∀ {branches s} name place, (∀ b ∈ branches, b < g.size) → Ready g s →
    room g s + 2 * g.size + branches.length + 1 ≤ budget →
    Ends (branchRefs g budget name place branches)
      (branchRefs g (budget + more) name place branches) s

/-- A name is found in one step. -/
theorem typeRef_named_ends (g : Graph) {budget : Nat} (more : Nat) {s : State} {i : Nat}
    (hint : String) (named : i ∈ s.names.map Prod.fst) (enough : 1 ≤ budget) :
    Ends (typeRef g budget i hint) (typeRef g (budget + more) i hint) s := by
  obtain ⟨budget, rfl⟩ := Nat.exists_eq_add_of_le' enough
  rw [Nat.add_right_comm, typeRef, typeRef]
  refine .get_bind ?_
  dsimp only
  cases found : s.names.lookup i with
  | some name => exact .pure _
  | none =>
    obtain ⟨p, owner, rfl⟩ := List.mem_map.mp named
    have fresh := List.lookup_eq_none_iff.mp found p owner
    simp at fresh

section Lists

variable {g : Graph} {more budget : Nat} {s : State} (ih : Suffices g more budget)

include ih

theorem recordFields_ends {n : Node} {owner : String} {properties : Assoc Nat}
    (lt : ∀ p ∈ properties, p.2 < g.size) (ready : Ready g s)
    (enough : room g s + 2 * g.size + properties.length + 1 ≤ budget + 1) :
    Ends (recordFields g (budget + 1) n owner properties)
      (recordFields g (budget + more + 1) n owner properties) s := by
  cases properties with
  | nil =>
    simp only [recordFields]
    exact .pure _
  | cons p rest =>
    rw [List.forall_mem_cons] at lt
    rw [List.length_cons] at enough
    rw [recordFields, recordFields]
    refine (ih.typeRef _ lt.1 ready (by omega)).bind fun type s' sub => ?_
    have less := room_mono (g := g) sub
    exact (ih.recordFields _ _ lt.2 (ready.mono sub) (by omega)).bind fun _ _ _ => .pure _

theorem mergeProperties_ends {root owner : String} {properties : Assoc Nat} {m : Merged}
    (lt : ∀ p ∈ properties, p.2 < g.size) (ready : Ready g s)
    (enough : room g s + 2 * g.size + properties.length + 1 ≤ budget + 1) :
    Ends (mergeProperties g (budget + 1) root owner properties m)
      (mergeProperties g (budget + more + 1) root owner properties m) s := by
  cases properties with
  | nil =>
    simp only [mergeProperties]
    exact .pure _
  | cons p rest =>
    rw [List.forall_mem_cons] at lt
    rw [List.length_cons] at enough
    rw [mergeProperties, mergeProperties]
    refine (ih.typeRef _ lt.1 ready (by omega)).bind fun type s' sub => ?_
    have less := room_mono (g := g) sub
    refine .lift_bind (fun e => add_found) fun m' _ => ?_
    exact ih.mergeProperties _ _ _ lt.2 (ready.mono sub) (by omega)

theorem branchRefs_ends {name : String} {place : Nat} {branches : List Nat}
    (lt : ∀ b ∈ branches, b < g.size) (ready : Ready g s)
    (enough : room g s + 2 * g.size + branches.length + 1 ≤ budget + 1) :
    Ends (branchRefs g (budget + 1) name place branches)
      (branchRefs g (budget + more + 1) name place branches) s := by
  cases branches with
  | nil =>
    simp only [branchRefs]
    exact .pure _
  | cons b rest =>
    rw [List.forall_mem_cons] at lt
    rw [List.length_cons] at enough
    rw [branchRefs, branchRefs]
    refine (ih.typeRef _ lt.1 ready (by omega)).bind fun type s' sub => ?_
    have less := room_mono (g := g) sub
    exact (ih.branchRefs _ _ lt.2 (ready.mono sub) (by omega)).bind fun _ _ _ => .pure _

theorem collectBranches_ends {root : String} {branches : List Nat} {owner : String}
    {visiting : List Nat} {m : Merged} (lt : ∀ b ∈ branches, b < g.size) (ready : Ready g s)
    (enough : room g s + 3 * g.size + steps g visiting + branches.length + 3 ≤ budget + 1) :
    Ends (collectBranches g (budget + 1) root branches owner visiting m)
      (collectBranches g (budget + more + 1) root branches owner visiting m) s := by
  cases branches with
  | nil =>
    simp only [collectBranches]
    exact .pure _
  | cons b rest =>
    rw [List.forall_mem_cons] at lt
    rw [List.length_cons] at enough
    rw [collectBranches, collectBranches]
    refine (ih.collectFields _ _ _ lt.1 ready (by omega)).bind fun m' s' sub => ?_
    have less := room_mono (g := g) sub
    exact ih.collectBranches _ _ _ lt.2 (ready.mono sub) (by omega)

end Lists

section Nodes

variable {g : Graph} (loaded : g.Loaded) (planted : g.Planted []) {more budget : Nat} {s : State}
  (ih : Suffices g more budget) (ready : Ready g s)

section Children

variable {i : Nat} (lt : i < g.size)

include planted lt

theorem property_lt {p : String × Nat} (mem : p ∈ (node g i).properties) : p.2 < i :=
  child_lt planted lt (by simp [Node.children, Assoc.values, List.mem_map_of_mem mem])

theorem item_lt {j : Nat} (items : (node g i).items = some j) : j < i :=
  child_lt planted lt (by simp [Node.children, items])

theorem additional_lt {j : Nat} (additional : (node g i).additional = some j) : j < i :=
  child_lt planted lt (by simp [Node.children, additional])

theorem allOf_lt {j : Nat} (mem : j ∈ (node g i).allOf) : j < i :=
  child_lt planted lt (by simp [Node.children, mem])

theorem alternative_lt {j : Nat} (mem : j ∈ alternatives (node g i)) : j < i := by
  rw [alternatives] at mem
  refine child_lt planted lt ?_
  split at mem <;> simp [Node.children, mem]

theorem singleBranch_lt {j : Nat} (branch : singleBranch (node g i) = some j) : j < i := by
  refine child_lt planted lt ?_
  rcases singleBranch_mem branch with eq | eq | eq <;> simp [Node.children, eq]

theorem properties_le : (node g i).properties.length ≤ g.size := by
  have le := length_children_le planted lt
  simp only [Node.children, Assoc.values, List.length_append, List.length_map] at le
  omega

theorem alternatives_le : (alternatives (node g i)).length ≤ g.size := by
  have le := length_children_le planted lt
  simp only [Node.children, List.length_append] at le
  rw [alternatives]
  split <;> omega

end Children

theorem refTarget_lt {g : Graph} (loaded : g.Loaded) {i j : Nat} (h : refTarget g i = .ok j) :
    j < g.size := by
  obtain ⟨n, found, leads⟩ := Option.bind_eq_some_iff.mp (refTarget_ok h)
  exact loaded.targets n (Array.mem_toList_iff.mpr (Array.mem_of_getElem? found)) j leads

include ih ready planted

theorem itemsRef_ends {i : Nat} {owner : String} (lt : i < g.size)
    (enough : room g s + 2 * i + 1 ≤ budget + 1) :
    Ends (itemsRef g (budget + 1) (node g i) owner)
      (itemsRef g (budget + more + 1) (node g i) owner) s := by
  rw [itemsRef, itemsRef]
  cases items : (node g i).items with
  | none => exact .pure _
  | some j =>
    have less := item_lt planted lt items
    exact ih.typeRef _ (Nat.lt_trans less lt) ready (by omega)

theorem deferUnion_ends {i : Nat} {name : String} (lt : i < g.size)
    (enough : room g s + 3 * g.size + 2 ≤ budget + 1) :
    Ends (deferUnion g (budget + 1) i name) (deferUnion g (budget + more + 1) i name) s := by
  rw [deferUnion, deferUnion]
  have length := alternatives_le planted lt
  have below (b) (mem : b ∈ alternatives (node g i)) : b < g.size :=
    Nat.lt_trans (alternative_lt planted lt mem) lt
  have refs := ih.branchRefs name 0 below ready (by omega)
  exact refs.bind fun _ _ _ => .modify rfl

omit planted in
/-- A node that is given a name sets its part of the budget free. -/
theorem hoist_ends {i : Nat} (hint : String) (lt : i < g.size) (fresh : s.names.lookup i = none)
    (enough : room g s + 2 * i + 2 ≤ budget + 1) :
    Ends (do
        let name ← reserveName i (TypeName.sanitize hint)
        compileNamed g budget i name
        return .named name : Build TypeRef)
      (do
        let name ← reserveName i (TypeName.sanitize hint)
        compileNamed g (budget + more) i name
        return .named name : Build TypeRef) s := by
  have unnamed : i ∉ s.names.map Prod.fst := by
    intro mem
    obtain ⟨p, owner, rfl⟩ := List.mem_map.mp mem
    simpa using List.lookup_eq_none_iff.mp fresh p owner
  let name := TypeName.firstFree s.taken (TypeName.sanitize hint)
  have sub : s.names ⊆ (s.own i name).names := List.subset_cons_self _ _
  have free : room g (s.own i name) + (8 * g.size + 16) = room g s := room_own lt unnamed name
  have compiled := ih.compileNamed name lt (ready.mono sub) (by omega)
  obtain ⟨same, fails, ends⟩ := compiled.bind fun _ _ _ => Ends.pure (TypeRef.named name)
  exact ⟨same, fails, fun t s' h => List.Subset.trans sub (ends t s' h)⟩

include loaded in
theorem collectFields_ends {root : String} {i : Nat} {owner : String} {visiting : List Nat}
    {m : Merged} (lt : i < g.size)
    (enough : room g s + 3 * g.size + steps g visiting + 2 ≤ budget + 1) :
    Ends (collectFields g (budget + 1) root i owner visiting m)
      (collectFields g (budget + more + 1) root i owner visiting m) s := by
  rw [collectFields, collectFields]
  dsimp only
  split
  · refine .fail_bind ?_
    rintro ⟨id, eq⟩
    simp at eq
  · next fresh =>
    have unvisited : i ∉ visiting := by simpa using fresh
    have visit := steps_visit lt unvisited
    cases kind : (node g i).kind with
    | ref =>
      refine .lift_bind (fun e => refTarget_found loaded kind) fun j target => ?_
      exact ih.collectFields _ _ _ (refTarget_lt loaded target) ready (by omega)
    | composition =>
      simp only
      split
      · refine .fail_bind ?_
        rintro ⟨id, ⟨⟩⟩
      · have properties (p) (mem : p ∈ (node g i).properties) : p.2 < g.size :=
          Nat.lt_trans (property_lt planted lt mem) lt
        have length := properties_le planted lt
        refine (ih.mergeProperties _ _ _ properties ready (by omega)).bind fun m' s' sub => ?_
        have less := room_mono (g := g) sub
        have branches (b) (mem : b ∈ (node g i).allOf) : b < g.size :=
          Nat.lt_trans (allOf_lt planted lt mem) lt
        exact ih.collectBranches _ _ _ branches (ready.mono sub) (by omega)
    | object =>
      have properties (p) (mem : p ∈ (node g i).properties) : p.2 < g.size :=
        Nat.lt_trans (property_lt planted lt mem) lt
      have length := properties_le planted lt
      exact ih.mergeProperties _ _ _ properties ready (by omega)
    | any => exact .pure _
    | _ =>
      refine .fail ?_
      rintro ⟨id, ⟨⟩⟩

include loaded in
theorem typeRef_ends {i : Nat} {hint : String} (lt : i < g.size)
    (enough : room g s + 2 * i + 2 ≤ budget + 1) :
    Ends (typeRef g (budget + 1) i hint) (typeRef g (budget + more + 1) i hint) s := by
  rw [typeRef, typeRef]
  refine .get_bind ?_
  dsimp only
  cases fresh : s.names.lookup i with
  | some name => exact .pure _
  | none =>
    have hoist := hoist_ends ih ready hint lt fresh enough
    cases branch : singleBranch (node g i) with
    | some b =>
      have less := singleBranch_lt planted lt branch
      exact ih.typeRef _ (Nat.lt_trans less lt) ready (by omega)
    | none =>
      cases kind : (node g i).kind with
      | ref =>
        refine .lift_bind (fun e => refTarget_found loaded kind) fun j target => ?_
        exact typeRef_named_ends g more hint (ready i j (refTarget_ok target)) (by omega)
      | primitive p => exact .pure _
      | any => exact .pure _
      | constant => exact .lift_bind (fun e => constantOf_found) fun l _ => .pure _
      | enumeration =>
        simp only
        split
        · refine .lift_bind (fun e => enumOf_found) fun values _ => ?_
          split
          · exact .pure _
          · exact hoist
        · exact hoist
      | array => exact (ih.itemsRef hint lt ready (by omega)).bind fun t _ _ => .pure _
      | object =>
        simp only
        split
        · split
          · next additional =>
            have less := additional_lt planted lt additional
            exact (ih.typeRef _ (Nat.lt_trans less lt) ready (by omega)).bind fun t _ _ => .pure _
          · exact .pure _
        · exact hoist
      | composition => exact hoist

include loaded in
theorem compileNamed_ends {i : Nat} {name : String} (lt : i < g.size)
    (enough : room g s + 6 * g.size + 3 ≤ budget + 1) :
    Ends (compileNamed g (budget + 1) i name) (compileNamed g (budget + more + 1) i name) s := by
  have properties (p) (mem : p ∈ (node g i).properties) : p.2 < g.size :=
    Nat.lt_trans (property_lt planted lt mem) lt
  have length := properties_le planted lt
  rw [compileNamed, compileNamed]
  dsimp only
  cases kind : (node g i).kind with
  | ref =>
    refine .lift_bind (fun e => refTarget_found loaded kind) fun j target => ?_
    have enough : 1 ≤ budget := by omega
    have named := typeRef_named_ends g more name (ready i j (refTarget_ok target)) enough
    exact named.map_map_bind fun _ _ _ => .modify rfl
  | composition =>
    simp only
    split
    · next b branch =>
      have less := singleBranch_lt planted lt branch
      have refers := ih.typeRef name (Nat.lt_trans less lt) ready (by omega)
      exact refers.map_map_bind fun _ _ _ => .modify rfl
    · split
      · split
        · exact .fail_bind nofun
        · have short := steps_le planted
          exact (ih.collectFields _ _ _ lt ready (by omega)).bind fun _ _ _ => .modify rfl
      · exact (ih.deferUnion _ lt ready (by omega)).bind fun _ _ _ => .pure _
  | object =>
    simp only
    split
    · next additional =>
      have less := additional_lt planted lt additional
      have refers := ih.typeRef (name ++ "Value") (Nat.lt_trans less lt) ready (by omega)
      exact (refers.map _).map_map_bind fun _ _ _ => .modify rfl
    · have fields := ih.recordFields (node g i) name properties ready (by omega)
      exact fields.map_map_bind fun _ _ _ => .modify rfl
  | array =>
    have items := ih.itemsRef name lt ready (by omega)
    exact items.map_map_bind fun _ _ _ => .modify rfl
  | enumeration =>
    exact .lift_bind (fun e => enumOf_found) fun _ _ => .modify rfl
  | constant =>
    exact .lift_bind (fun e => constantOf_found) fun _ _ => .modify rfl
  | primitive p => exact .modify rfl
  | any => exact .modify rfl

end Nodes

/-- The budgets are enough, by induction on them. -/
theorem allSuffice {g : Graph} (loaded : g.Loaded) (planted : g.Planted []) (more budget : Nat) :
    Suffices g more budget := by
  induction budget with
  | zero =>
    constructor <;> intros <;> omega
  | succ budget ih =>
    constructor
    all_goals rw [Nat.add_right_comm]
    · intro i s name lt ready enough
      exact compileNamed_ends loaded planted ih ready lt enough
    · intro i s hint lt ready enough
      exact typeRef_ends loaded planted ih ready lt enough
    · intro i s owner lt ready enough
      exact itemsRef_ends planted ih ready lt enough
    · intro properties s n owner lt ready enough
      exact recordFields_ends ih lt ready enough
    · intro i visiting s root owner m lt ready enough
      exact collectFields_ends loaded planted ih ready lt enough
    · intro branches visiting s root owner m lt ready enough
      exact collectBranches_ends ih lt ready enough
    · intro properties s root owner m lt ready enough
      exact mergeProperties_ends ih lt ready enough
    · intro i s name lt ready enough
      exact deferUnion_ends planted ih ready lt enough
    · intro branches s name place lt ready enough
      exact branchRefs_ends ih lt ready enough

/-- Names the nodes that own an entry from the start and compiles them within a budget. -/
def buildEntriesWithin (g : Graph) (budget : Nat) : Build Unit := do
  let reserved ← reserveNames g
  reserved.forM fun p => compileNamed g budget p.1 p.2

theorem compileAll_ends {g : Graph} (loaded : g.Loaded) (planted : g.Planted []) {names : Names}
    {s : State} (lt : ∀ p ∈ names, p.1 < g.size) (ready : Ready g s) (more : Nat) :
    Ends (names.forM fun p => compileNamed g (budget g) p.1 p.2)
      (names.forM fun p => compileNamed g (budget g + more) p.1 p.2) s := by
  induction names generalizing s with
  | nil => exact .pure _
  | cons p names ih =>
    rw [List.forall_mem_cons] at lt
    have enough : room g s + 6 * g.size + 3 ≤ budget g := by
      have bound := room_le (g := g) s
      rw [budget, Nat.add_mul]
      omega
    have first := (allSuffice loaded planted more (budget g)).compileNamed p.2 lt.1 ready enough
    rw [List.forM_eq_forM, List.forM_cons, List.forM_cons]
    exact first.bind fun _ s' sub => ih lt.2 (ready.mono sub)

/-- Once the targets of references are named, the entries are built without using up the budget. -/
theorem buildEntries_ends {g : Graph} (loaded : g.Loaded) (planted : g.Planted [])
    (ids : (g.nodes.toList.map Node.id).Nodup) (more : Nat) :
    Ends (buildEntries g) (buildEntriesWithin g (budget g + more)) {} := by
  obtain ⟨names, s, run, -, reserved, nodes⟩ := reserveNames_owned loaded
  have lt (p) (mem : p ∈ names) : p.1 < g.size := by
    have named : p.1 ∈ namedNodes g := nodes ▸ List.mem_map_of_mem mem
    exact lt_of_mem_namedNodes loaded named
  have ready : Ready g s := by
    intro i target leads
    obtain ⟨n, found, linked⟩ := Option.bind_eq_some_iff.mp leads
    have below := loaded.targets n (Array.mem_toList_iff.mpr (Array.mem_of_getElem? found)) target
      linked
    have named : target ∈ namedNodes g :=
      (mem_namedNodes loaded ids).mpr ⟨below, .inr (.inr ⟨i, lt_of_node? found, leads⟩)⟩
    rw [← nodes] at named
    exact List.map_subset _ reserved named
  have all := compileAll_ends loaded planted lt ready more
  have split (limit : Nat) : buildEntriesWithin g limit {} =
      (names.forM fun p => compileNamed g limit p.1 p.2) s := by
    change (reserveNames g {} >>= fun p =>
      (p.1.forM fun p => compileNamed g limit p.1 p.2) p.2) = _
    rw [run]
    rfl
  have whole : buildEntries g {} = buildEntriesWithin g (budget g) {} := rfl
  obtain ⟨same, fails, -⟩ := all
  refine ⟨?_, fun e h => ?_, fun _ _ _ => List.nil_subset _⟩
  · rw [whole, split, split, same]
  · rw [whole, split] at h
    exact fails e h

/-! ### The steps after the entries -/

theorem pathBack_ne_nil {c : Catalog} {start name : String} {steps : Nat} {path : List String}
    (h : c.pathBack start steps name = some path) : path ≠ [] := by
  cases steps with
  | zero => cases h
  | succ steps =>
    rw [Catalog.pathBack] at h
    split at h
    · cases h
    · split at h
      · cases h
        exact List.cons_ne_nil _ _
      · obtain ⟨rest, -, rfl⟩ := Option.map_eq_some_iff.mp h
        exact List.cons_ne_nil _ _

theorem validate_found {c : Catalog} {e : SchemaError} (h : c.validate = .error e) :
    ¬CutShort e := by
  rw [Catalog.validate] at h
  rcases Outcome.bind_eq_error.mp h with mentions | ⟨_, -, cycles⟩
  · obtain ⟨entry, -, fails⟩ := Outcome.exists_of_forM_eq_error mentions
    split at fails <;> cases fails
    exact nofun
  · obtain ⟨entry, -, fails⟩ := Outcome.exists_of_forM_eq_error cycles
    split at fails
    · next path found =>
      cases fails
      rintro ⟨id, eq⟩
      split at found
      · exact pathBack_ne_nil found (SchemaError.circularReference.inj eq).2
      · cases found
    · cases fails

end TypedArchive.Compile

namespace TypedArchive

/-- Compiles with a budget for the entries. -/
def Graph.compileWithin (g : Graph) (budget : Nat) : Except SchemaError Catalog := do
  let (_, s) ← (Compile.buildEntriesWithin g budget).run {}
  let catalog ← Compile.finishUnions g s.catalog s.pending
  catalog.validate
  return catalog

open Compile in
/-- The compilation of documents whose names hold no mark comes to an end by itself: its budget does
not run out and a larger one changes nothing, and a union is not flattened deeper than there are
unions. -/
theorem Graph.compile_ends {b : Bundle} {g : Graph} (documents : b.documents.keys.Nodup)
    (marks : ∀ name ∈ b.documents.keys, '#' ∉ name.toList) (load : Graph.load b = .ok g) :
    (∀ id, g.compile ≠ .error (.circularReference id [])) ∧
      (∀ more, g.compileWithin (budget g + more) = g.compile) ∧
      ∀ unions name branches, flattenWithin unions (unions.length + 1) branches [name] [] =
        some (flattenInto unions (unions.length + 1) branches [name] []) := by
  obtain ⟨loaded, distinct⟩ := Graph.loaded_of_load load
  have ids := distinct documents marks
  have planted := Graph.planted_of_load load
  refine ⟨fun id h => ?_, fun more => ?_, fun unions name branches => ?_⟩
  · obtain ⟨-, fails, -⟩ := buildEntries_ends loaded planted ids 0
    rw [Graph.compile] at h
    have cut : CutShort (.circularReference id []) := ⟨id, rfl⟩
    rcases Outcome.bind_eq_error.mp h with build | ⟨⟨u, s⟩, -, h⟩
    · exact fails _ build cut
    · rcases Outcome.bind_eq_error.mp h with finish | ⟨c, -, h⟩
      · obtain ⟨id, index, eq⟩ := finishUnions_error finish
        cases eq
      · rcases Outcome.bind_eq_error.mp h with validate | ⟨_, -, h⟩
        · exact validate_found validate cut
        · cases h
  · obtain ⟨same, -, -⟩ := buildEntries_ends loaded planted ids more
    change buildEntries g {} = buildEntriesWithin g (budget g + more) {} at same
    rw [Graph.compile, Graph.compileWithin, StateT.run, StateT.run, same]
  · have few : unseen unions [name] < unions.length + 1 :=
      Nat.lt_succ_of_le (List.length_filter_le _ _)
    exact flattenWithin_eq few

set_option maxRecDepth 100000 in
/-- A record that reaches its base along two branches and holds itself, and a union that is a branch
of itself. -/
theorem Graph.compile_ends_of_diamond :
    let ref (name : String) : Json := .object [("$ref", .string ("#/$defs/" ++ name))]
    let nothing : Json := .object [("type", .string "null")]
    let field (name : String) (type : Json) : Json :=
      .object [("properties", .object [(name, type)])]
    let union (a b : Json) : Json := .object [("oneOf", .array [a, b])]
    let merge (a b : Json) : Json := .object [("allOf", .array [a, b])]
    let schema : Json := .object [("$defs", .object
      [("b", field "n" (ref "u")),
        ("t", merge (merge (ref "b") (field "l" (ref "t"))) (ref "b")),
        ("u", union nothing (ref "u"))])]
    ∃ g c, Graph.load ⟨[("a.json", schema.render)]⟩ = .ok g ∧ g.compile = .ok c ∧
      c.names = ["B", "T", "U"] ∧
      ∀ more, g.compileWithin (Compile.budget g + more) = .ok c := by
  intro ref nothing field union merge schema
  have runs : Bundle.compilesTo ⟨[("a.json", schema.render)]⟩ (fun _ c => decide
      (c.names = ["B", "T", "U"])) = true := by
    rw [Bundle.compilesTo_eq]
    decide +kernel
  obtain ⟨g, c, load, compile, h⟩ := Bundle.exists_of_compilesTo runs
  have documents : (Bundle.mk [("a.json", schema.render)]).documents.keys = ["a.json"] := rfl
  have marks (name) (mem : name ∈ (Bundle.mk [("a.json", schema.render)]).documents.keys) :
      '#' ∉ name.toList := by
    rw [documents, List.mem_singleton] at mem
    simp [mem]
  obtain ⟨-, same, -⟩ :=
    Graph.compile_ends (documents ▸ List.nodup_singleton _) marks load
  exact ⟨g, c, load, compile, of_decide_eq_true h, fun more => (same more).trans compile⟩

end TypedArchive
