import TypedArchive.Proofs.Chain
import TypedArchive.Proofs.Schema.Postorder

/-! Following references. The nodes that are left are different nodes, so the walk ends within one
step more than there are nodes; it answers with the last node of the chain of references, and with
none exactly if the chain comes to a circle. -/

namespace TypedArchive.Graph

/-- A node has a reference whose target is another. -/
def RefersTo (g : Graph) (i j : Nat) : Prop :=
  ∃ n r, g.node? i = some n ∧ n.reference = some r ∧ r.target = some j

variable {g : Graph} {i j steps : Nat} {seen : List Nat}

theorem refTarget?_eq_some_iff : g.refTarget? i = some j ↔ g.RefersTo i j := by
  simp only [refTarget?, RefersTo, Option.bind_eq_some_iff, exists_and_left]

theorem step_refTarget? (g : Graph) : Chain.Step g.refTarget? = g.RefersTo := by
  funext i j
  exact propext refTarget?_eq_some_iff

theorem lt_of_refTarget? (leads : g.refTarget? i = some j) : i < g.size := by
  obtain ⟨n, r, here, -, -⟩ := refTarget?_eq_some_iff.mp leads
  exact (Array.getElem?_eq_some_iff.mp here).1

/-- Where the walk stops, the chain of references stops. -/
theorem exists_last_of_followFrom (h : g.followFrom steps seen i = some (some j)) :
    Relation.ReflTransGen g.RefersTo i j ∧ g.refTarget? j = none := by
  fun_induction followFrom g steps seen i with
  | case1 | case3 => cases h
  | case2 steps seen i stops =>
    cases h
    exact ⟨.refl, stops⟩
  | case4 steps seen i target leads fresh ih =>
    obtain ⟨chain, stops⟩ := ih h
    exact ⟨.head (refTarget?_eq_some_iff.mp leads) chain, stops⟩

/-- The nodes that were left lead to the node that was reached, so one that is met again is on a
circle. -/
theorem exists_circle_of_followFrom (left : ∀ k ∈ seen, Relation.TransGen g.RefersTo k i)
    (h : g.followFrom steps seen i = some none) :
    ∃ k, Relation.ReflTransGen g.RefersTo i k ∧ Relation.TransGen g.RefersTo k k := by
  fun_induction followFrom g steps seen i with
  | case1 | case2 => cases h
  | case3 steps seen i target leads again => exact ⟨i, .refl, left i again⟩
  | case4 steps seen i target leads fresh ih =>
    have step := refTarget?_eq_some_iff.mp leads
    have left' : ∀ k ∈ i :: seen, Relation.TransGen g.RefersTo k target :=
      List.forall_mem_cons.mpr ⟨.single step, fun k mem => (left k mem).tail step⟩
    obtain ⟨k, chain, circle⟩ := ih left' h
    exact ⟨k, .head step chain, circle⟩

/-- The nodes that were left are different nodes of the graph, so the walk takes no more steps than
there are nodes left. -/
theorem followFrom_ends (distinct : seen.Nodup) (nodes : ∀ k ∈ seen, k < g.size)
    (enough : g.size < seen.length + steps) : ∃ r, g.followFrom steps seen i = some r := by
  fun_induction followFrom g steps seen i with
  | case1 seen i =>
    have sub : seen ⊆ List.range g.size := fun k mem => List.mem_range.mpr (nodes k mem)
    have few := (List.subperm_of_subset distinct sub).length_le
    rw [List.length_range] at few
    omega
  | case2 steps seen i stops => exact ⟨some i, rfl⟩
  | case3 steps seen i target leads again => exact ⟨none, rfl⟩
  | case4 steps seen i target leads fresh ih =>
    refine ih (distinct.cons fresh) (List.forall_mem_cons.mpr ⟨lt_of_refTarget? leads, nodes⟩) ?_
    rw [List.length_cons]
    omega

/-- An answer is right, whatever the steps that it took: a chain of references ends at one node, and
one that ends comes to no circle. -/
theorem eq_some_of_followFrom {r : Option Nat} (h : g.followFrom steps [] i = some r) :
    r = some j ↔ Relation.ReflTransGen g.RefersTo i j ∧ g.refTarget? j = none := by
  constructor
  · rintro rfl
    exact exists_last_of_followFrom h
  · rintro ⟨chain, stops⟩
    rw [← step_refTarget?] at chain
    cases r with
    | none =>
      obtain ⟨k, reached, circle⟩ := exists_circle_of_followFrom (List.forall_mem_nil _) h
      rw [← step_refTarget?] at reached circle
      exact absurd circle (Chain.no_circle_of_last stops chain reached)
    | some last =>
      obtain ⟨chain', stops'⟩ := exists_last_of_followFrom h
      rw [← step_refTarget?] at chain'
      rw [Chain.last_unique stops' stops chain' chain]

theorem eq_none_of_followFrom {r : Option Nat} (h : g.followFrom steps [] i = some r) :
    r = none ↔
      ∃ k, Relation.ReflTransGen g.RefersTo i k ∧ Relation.TransGen g.RefersTo k k := by
  constructor
  · rintro rfl
    exact exists_circle_of_followFrom (List.forall_mem_nil _) h
  · rintro ⟨k, reached, circle⟩
    cases r with
    | none => rfl
    | some last =>
      obtain ⟨chain, stops⟩ := exists_last_of_followFrom h
      rw [← step_refTarget?] at chain reached circle
      exact absurd circle (Chain.no_circle_of_last stops chain reached)

theorem followFrom_eq_followRefs (g : Graph) (i more : Nat) :
    g.followFrom (g.size + 1 + more) [] i = some (g.followRefs i) := by
  have ends (more : Nat) : ∃ r, g.followFrom (g.size + 1 + more) [] i = some r := by
    apply followFrom_ends List.nodup_nil (List.forall_mem_nil _)
    rw [List.length_nil]
    omega
  obtain ⟨r, h⟩ := ends more
  obtain ⟨r', h'⟩ := ends 0
  have same : r = r' := by
    apply Option.ext
    intro j
    rw [eq_some_of_followFrom h, eq_some_of_followFrom h']
  rw [h, followRefs, ← Nat.add_zero (g.size + 1), h', same]
  rfl

/-- In a loaded graph every reference has a target. -/
theorem exists_target_of_load {b : Bundle} (load : Graph.load b = .ok g) {n : Node}
    (mem : n ∈ g.nodes.toList) {r : Reference} (reference : n.reference = some r) :
    ∃ target, r.target = some target := by
  obtain ⟨g₀, -, -, each⟩ := exists_readAll_of_load load
  obtain ⟨m, mem⟩ := Outcome.exists_mem_zip_right each.length_eq mem
  exact (link_reference (List.forall₂_zip each mem)).2 r reference

/-- So a node of a loaded graph that leads nowhere has no reference. -/
theorem refTarget?_eq_none_of_load {b : Bundle} (load : Graph.load b = .ok g) {n : Node}
    (here : g.node? i = some n) : g.refTarget? i = none ↔ n.reference = none := by
  rw [refTarget?, here, Option.bind_some, Option.bind_eq_none_iff]
  constructor
  · intro leads
    rw [Option.eq_none_iff_forall_ne_some]
    intro r reference
    have mem : n ∈ g.nodes.toList := Array.mem_toList_iff.mpr (Array.mem_of_getElem? here)
    obtain ⟨target, found⟩ := exists_target_of_load load mem reference
    cases (leads r reference).symm.trans found
  · intro absent r reference
    cases absent.symm.trans reference

/-- In a loaded graph references lead from nodes to nodes. -/
theorem exists_node_of_chain {b : Bundle} (load : Graph.load b = .ok g) {n : Node}
    (here : g.node? i = some n) (chain : Relation.ReflTransGen g.RefersTo i j) :
    ∃ m, g.node? j = some m := by
  rcases chain.cases_tail with rfl | ⟨k, -, m, r, there, reference, target⟩
  · exact ⟨n, here⟩
  · have mem : m ∈ g.nodes.toList := Array.mem_toList_iff.mpr (Array.mem_of_getElem? there)
    have lt := (loaded_of_load load).1.targets m mem j (by rw [reference]; exact target)
    exact ⟨_, Array.getElem?_eq_getElem lt⟩

/-- In a loaded graph the walk along references comes to an end by itself from every node: more
steps than one for each node and another change nothing. It gives the node without a reference at
which the chain ends, and none exactly if the chain comes to a circle. -/
theorem followRefs_of_load {b : Bundle} (load : Graph.load b = .ok g) {n : Node}
    (here : g.node? i = some n) :
    (∀ more, g.followFrom (g.size + 1 + more) [] i = some (g.followRefs i)) ∧
    (∀ j, g.followRefs i = some j ↔ Relation.ReflTransGen g.RefersTo i j ∧
      ∃ m, g.node? j = some m ∧ m.reference = none) ∧
    (g.followRefs i = none ↔
      ∃ j, Relation.ReflTransGen g.RefersTo i j ∧ Relation.TransGen g.RefersTo j j) := by
  have answer := followFrom_eq_followRefs g i
  refine ⟨answer, fun j => ?_, eq_none_of_followFrom (answer 0)⟩
  rw [eq_some_of_followFrom (answer 0)]
  refine and_congr_right fun chain => ?_
  obtain ⟨m, there⟩ := exists_node_of_chain load here chain
  rw [refTarget?_eq_none_of_load load there]
  constructor
  · exact fun absent => ⟨m, there, absent⟩
  · rintro ⟨m', there', absent⟩
    cases there.symm.trans there'
    exact absent

set_option maxRecDepth 100000 in
/-- Two references that lead to each other, one that leads into their circle, one that leads to
itself, and a chain of two that ends in another document. -/
theorem followRefs_of_load_circles :
    let reference (target : String) : Json := .object [("$ref", .string target)]
    let definitions (members : Assoc Json) : Json := .object [("definitions", .object members)]
    let first := definitions [("a", reference "#/definitions/b"),
      ("b", reference "#/definitions/a"), ("c", reference "#/definitions/a"),
      ("d", reference "#/definitions/d"), ("e", reference "b.json#/definitions/f")]
    let second := definitions [("f", reference "#")]
    let b : Bundle := ⟨[("a.json", first.render), ("b.json", second.render)]⟩
    ∃ g, Graph.load b = .ok g ∧ g.size = 8 ∧
      (∃ j, Relation.ReflTransGen g.RefersTo 2 j ∧ Relation.TransGen g.RefersTo j j) ∧
      (∃ j, Relation.ReflTransGen g.RefersTo 3 j ∧ Relation.TransGen g.RefersTo j j) ∧
      Relation.ReflTransGen g.RefersTo 4 7 ∧ ∃ m, g.node? 7 = some m ∧ m.reference = none := by
  intro reference definitions first second b
  have followed : (Graph.load b).toOption.map (fun g =>
      (g.size, g.followRefs 2, g.followRefs 3, g.followRefs 4)) =
        some (8, none, none, some 7) := by
    rw [load_eq_loadBytes]
    decide +kernel
  obtain ⟨g, loaded, followed⟩ := Option.map_eq_some_iff.mp followed
  simp only [Prod.mk.injEq] at followed
  obtain ⟨size, tail, self, long⟩ := followed
  have load := Outcome.toOption_eq_some.mp loaded
  have node (i : Nat) (lt : i < 8) : ∃ n, g.node? i = some n :=
    ⟨_, Array.getElem?_eq_getElem (Nat.lt_of_lt_of_eq lt size.symm)⟩
  obtain ⟨_, c⟩ := node 2 (by decide)
  obtain ⟨_, d⟩ := node 3 (by decide)
  obtain ⟨_, e⟩ := node 4 (by decide)
  exact ⟨g, load, size, (followRefs_of_load load c).2.2.mp tail,
    (followRefs_of_load load d).2.2.mp self, (followRefs_of_load load e).2.1 7 |>.mp long⟩

end TypedArchive.Graph
