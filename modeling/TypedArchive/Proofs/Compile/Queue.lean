import TypedArchive.Proofs.Catalog.Alias
import TypedArchive.Proofs.Compile.Soundness

/-! The order in which unions wait does not matter. A union is resolved against a catalog that holds
the unions before it, but no union looks into another one there: it is no record, and it has no shape
of its own, whether its entry stands in the catalog yet or not. -/

namespace TypedArchive.Compile

/-- A catalog has the entries of another, and only unions besides. -/
structure AddsUnions (c c' : Catalog) : Prop extends Extends c c' where
  unions : ∀ name e, c'.get? name = some e →
    c.get? name = some e ∨ ∃ discriminant variants, e.type = .union discriminant variants

section AddsUnions

variable {c c' : Catalog} (adds : AddsUnions c c')

include adds

/-- A chain that does not end at a union leads through none that was added. -/
theorem AddsUnions.resolveAlias_back {name : String} {e : Entry}
    (resolved : c'.resolveAlias name = some e)
    (other : ∀ discriminant variants, e.type ≠ .union discriminant variants) :
    c.resolveAlias name = some e := by
  have own {name : String} {e : Entry} (entry : c'.get? name = some e)
      (other : ∀ discriminant variants, e.type ≠ .union discriminant variants) :
      c.get? name = some e := by
    rcases adds.unions name e entry with own | ⟨discriminant, variants, union⟩
    · exact own
    · exact absurd union (other discriminant variants)
  obtain ⟨last, chain, entry, stops⟩ := Catalog.resolveAlias_eq_some_iff.mp resolved
  refine Catalog.resolveAlias_eq_some_iff.mpr ⟨last, chain.lift id ?_, own entry other, stops⟩
  rintro name next ⟨first, entry, type⟩
  refine ⟨first, own entry fun discriminant variants union => ?_, type⟩
  rw [type] at union
  cases union

theorem AddsUnions.resolveAlias (name : String) :
    c'.resolveAlias name = c.resolveAlias name ∨ c.resolveAlias name = none ∧
      ∃ e discriminant variants, c'.resolveAlias name = some e ∧
        e.type = .union discriminant variants := by
  cases resolved : c.resolveAlias name with
  | some e =>
    exact .inl (adds.followAliases (Nat.succ_le_succ adds.size) resolved)
  | none =>
    cases resolved' : c'.resolveAlias name with
    | none => exact .inl rfl
    | some e =>
      refine .inr ⟨rfl, ?_⟩
      by_contra other
      have back := adds.resolveAlias_back resolved' fun discriminant variants union =>
        other ⟨e, discriminant, variants, rfl, union⟩
      cases resolved.symm.trans back

theorem AddsUnions.recordOf?_eq : Compile.recordOf? c' = Compile.recordOf? c := by
  funext t
  cases t with
  | named name =>
    simp only [Compile.recordOf?, TypeRef.asNamed?, Option.bind_some]
    rcases adds.resolveAlias name with eq | ⟨none, e, discriminant, variants, found, union⟩
    · rw [eq]
    · simp [none, found, union]
  | _ => rfl

theorem AddsUnions.shapeOf_eq : shapeOf c' = shapeOf c := by
  funext t
  cases t with
  | named name =>
    simp only [shapeOf]
    rcases adds.resolveAlias name with eq | ⟨none, e, discriminant, variants, found, union⟩
    · rw [eq]
    · simp [none, found, union]
  | _ => rfl

/-- Unions in the catalog are not seen when another one is resolved. -/
theorem AddsUnions.resolveUnion_eq (g : Graph) (unions : Branches) (u : PendingUnion) :
    resolveUnion g c' unions u = resolveUnion g c unions u := by
  simp only [resolveUnion, discriminated?, adds.recordOf?_eq, adds.shapeOf_eq]

end AddsUnions

/-- The entry of a union with its definition. -/
def unionEntry (g : Graph) (u : PendingUnion) (type : TypeDef) : Entry :=
  ⟨u.name, (node g u.node).id, (node g u.node).description, type⟩

section Finish

variable {g : Graph} {unions : Branches} {c c' c₁ c₂ : Catalog} {u a b : PendingUnion}

theorem finishUnion_eq_ok : finishUnion g unions c u = .ok c' ↔
    ∃ type, resolveUnion g c unions u = .ok type ∧ c' = c.insert (unionEntry g u type) := by
  rw [finishUnion, Outcome.bind_eq_ok]
  refine exists_congr fun type => and_congr_right fun _ => ?_
  rw [Outcome.pure_eq_ok]
  exact eq_comm

theorem addsUnions_of_finishUnion (fresh : c.get? u.name = none)
    (h : finishUnion g unions c u = .ok c') : AddsUnions c c' := by
  obtain ⟨type, resolve, rfl⟩ := finishUnion_eq_ok.mp h
  refine ⟨Extends.insert fresh, fun name e found => ?_⟩
  rw [Catalog.get?_insert] at found
  split at found
  · cases found
    refine .inr ?_
    cases resolveUnion_ok resolve with
    | inlined => exact ⟨_, _, rfl⟩
    | tagged => exact ⟨_, _, rfl⟩
    | shaped => exact ⟨_, _, rfl⟩
  · exact .inl found

theorem get?_finishUnion {name : String} (h : finishUnion g unions c u = .ok c')
    (other : name ≠ u.name) : c'.get? name = c.get? name := by
  obtain ⟨type, -, rfl⟩ := finishUnion_eq_ok.mp h
  rw [Catalog.get?_insert]
  exact if_neg other

/-- Two unions that follow each other can change places. -/
theorem finishUnion_swap (ne : a.name ≠ b.name) (freshA : c.get? a.name = none)
    (freshB : c.get? b.name = none) (first : finishUnion g unions c a = .ok c₁)
    (second : finishUnion g unions c₁ b = .ok c₂) :
    ∃ c₁', finishUnion g unions c b = .ok c₁' ∧ finishUnion g unions c₁' a = .ok c₂ := by
  have addsA := addsUnions_of_finishUnion freshA first
  obtain ⟨typeA, resolveA, rfl⟩ := finishUnion_eq_ok.mp first
  obtain ⟨typeB, resolveB, rfl⟩ := finishUnion_eq_ok.mp second
  rw [addsA.resolveUnion_eq] at resolveB
  have first' := finishUnion_eq_ok.mpr ⟨typeB, resolveB, rfl⟩
  have addsB := addsUnions_of_finishUnion freshB first'
  rw [← addsB.resolveUnion_eq] at resolveA
  refine ⟨_, first', finishUnion_eq_ok.mpr ⟨typeA, resolveA, ?_⟩⟩
  rw [Catalog.insert, Catalog.insert, Catalog.mk.injEq]
  exact Assoc.insert_comm ne c.entries _ _

/-- Unions of different names can be resolved in any order. -/
theorem finish_perm {pending pending' : List PendingUnion} (perm : pending.Perm pending')
    (once : (pending.map PendingUnion.name).Nodup) (fresh : ∀ u ∈ pending, c.get? u.name = none)
    (h : pending.foldlM (finishUnion g unions) c = .ok c') :
    pending'.foldlM (finishUnion g unions) c = .ok c' := by
  induction perm generalizing c with
  | nil => exact h
  | cons u _ ih =>
    rw [List.foldlM_cons] at h ⊢
    obtain ⟨c₁, first, h⟩ := Outcome.bind_eq_ok.mp h
    obtain ⟨absent, once⟩ := List.nodup_cons.mp once
    refine Outcome.bind_eq_ok.mpr ⟨c₁, first, ih once (fun w mem => ?_) h⟩
    rw [get?_finishUnion first fun eq => absent (eq ▸ List.mem_map_of_mem mem)]
    exact fresh w (List.mem_cons_of_mem _ mem)
  | swap b a rest =>
    rw [List.foldlM_cons] at h
    obtain ⟨c₁, first, h⟩ := Outcome.bind_eq_ok.mp h
    rw [List.foldlM_cons] at h
    obtain ⟨c₂, second, h⟩ := Outcome.bind_eq_ok.mp h
    have ne : a.name ≠ b.name := by
      rw [List.map_cons, List.map_cons] at once
      exact List.ne_of_not_mem_cons (List.nodup_cons.mp once).1
    rw [List.forall_mem_cons, List.forall_mem_cons] at fresh
    obtain ⟨c₁', first', second'⟩ := finishUnion_swap ne fresh.1 fresh.2.1 first second
    exact Outcome.bind_eq_ok.mpr ⟨c₁', first', Outcome.bind_eq_ok.mpr ⟨c₂, second', h⟩⟩
  | trans perm _ ih ih' =>
    refine ih' ((perm.map _).nodup_iff.mp once) (fun u mem => ?_) (ih once fresh h)
    exact fresh u (perm.mem_iff.mpr mem)

end Finish

theorem lookup_branchesOf_perm {pending pending' : List PendingUnion}
    (perm : pending.Perm pending') (once : (pending.map PendingUnion.name).Nodup) (name : String) :
    (branchesOf pending).lookup name = (branchesOf pending').lookup name := by
  have once' : (pending'.map PendingUnion.name).Nodup := (perm.map _).nodup_iff.mp once
  ext branches
  constructor
  · intro found
    obtain ⟨u, mem, rfl, rfl⟩ := mem_of_lookup_branches found
    exact lookup_branchesOf once' (perm.mem_iff.mp mem)
  · intro found
    obtain ⟨u, mem, rfl, rfl⟩ := mem_of_lookup_branches found
    exact lookup_branchesOf once (perm.mem_iff.mpr mem)

/-- Only what the names of unions stand for matters. -/
theorem flattenInto_congr {unions unions' : Branches}
    (same : ∀ name, unions.lookup name = unions'.lookup name) (depth : Nat) :
    flattenInto unions depth = flattenInto unions' depth := by
  funext branches seen leaves
  induction depth generalizing branches seen leaves with
  | zero => rfl
  | succ depth ih => simp only [flattenInto, same, ih]

theorem flattenBranches_congr {unions unions' : Branches} (length : unions.length = unions'.length)
    (same : ∀ name, unions.lookup name = unions'.lookup name) :
    flattenBranches unions = flattenBranches unions' := by
  funext name branches
  rw [flattenBranches, flattenBranches, length, flattenInto_congr same]

theorem finishUnions_of_perm {g : Graph} {c c' : Catalog} {pending pending' : List PendingUnion}
    (perm : pending.Perm pending') (once : (pending.map PendingUnion.name).Nodup)
    (fresh : ∀ u ∈ pending, c.get? u.name = none) (h : finishUnions g c pending = .ok c') :
    finishUnions g c pending' = .ok c' := by
  have length : (branchesOf pending).length = (branchesOf pending').length :=
    (perm.map _).length_eq
  have same : finishUnion g (branchesOf pending) = finishUnion g (branchesOf pending') := by
    funext c u
    rw [finishUnion, finishUnion, resolveUnion, resolveUnion,
      flattenBranches_congr length (lookup_branchesOf_perm perm once)]
  have h : pending.foldlM (finishUnion g (branchesOf pending)) c = .ok c' := h
  rw [same] at h
  exact finish_perm perm once fresh h

/-- The unions that a compilation leaves pending can be resolved in any order: they are resolved in
all orders or in none, and to one catalog. -/
theorem finishUnions_perm {g : Graph} {s : State} (built : buildEntries g {} = .ok ((), s))
    {pending : List PendingUnion} (perm : pending.Perm s.pending) (c : Catalog) :
    finishUnions g s.catalog pending = .ok c ↔ finishUnions g s.catalog s.pending = .ok c := by
  obtain ⟨inv, -⟩ := buildEntries_ok built
  have fresh (u) (mem : u ∈ s.pending) : s.catalog.get? u.name = none := (inv.queued mem).1
  constructor
  · refine finishUnions_of_perm perm ((perm.map _).nodup_iff.mpr inv.queuedOnce) fun u mem => ?_
    exact fresh u (perm.mem_iff.mp mem)
  · exact finishUnions_of_perm perm.symm inv.queuedOnce fresh

/-- Two unions each with the other as a branch, and a third that reaches one of them through an
alias. -/
theorem finishUnions_perm_mutual :
    let oneOf (document : String) (branches : List Nat) : Node :=
      { document, pointer := [], kind := .composition, oneOf := branches }
    let ref (document : String) (pointer : Pointer) (target : Nat) : Node :=
      { document, pointer, kind := .ref, reference := some ⟨"", some target⟩ }
    let object (document : String) (property : Nat) : Node :=
      { document, pointer := [], kind := .object, properties := [("tag", property)] }
    let tag (document value : String) : Node :=
      { document, pointer := ["tag"], kind := .constant, constant := some (.string value) }
    let text (document : String) : Node :=
      { document, pointer := ["0"], kind := .primitive .string }
    let g : Graph :=
      { nodes := #[oneOf "a" [4, 5], oneOf "b" [6, 7], object "s" 8, object "t" 9,
          ref "a" ["0"] 1, ref "a" ["1"] 3, ref "b" ["0"] 0, ref "b" ["1"] 2, tag "s" "s",
          tag "t" "t", oneOf "d" [11, 12], text "d", ref "d" ["1"] 13, ref "c" [] 0]
        byId := [("a#", 0), ("b#", 1), ("c#", 13), ("d#", 10), ("s#", 2), ("t#", 3)] }
    ∃ s c, buildEntries g {} = .ok ((), s) ∧
      s.pending.map PendingUnion.name = ["A", "B", "D"] ∧ s.pending.reverse.Perm s.pending ∧
      finishUnions g s.catalog s.pending = .ok c ∧
      finishUnions g s.catalog s.pending.reverse = .ok c := by
  intro oneOf ref object tag text g
  have runs : (match buildEntries g {} with
      | .ok (_, s) => s.pending.map PendingUnion.name == ["A", "B", "D"] &&
          (finishUnions g s.catalog s.pending).isOk
      | .error _ => false) = true := by decide +kernel
  split at runs
  · next s built =>
    rw [Bool.and_eq_true, beq_iff_eq] at runs
    obtain ⟨c, finished⟩ := Outcome.exists_of_isOk runs.2
    have perm : s.pending.reverse.Perm s.pending := List.reverse_perm s.pending
    exact ⟨s, c, built, runs.1, perm, finished, (finishUnions_perm built perm c).mpr finished⟩
  · cases runs

end TypedArchive.Compile
