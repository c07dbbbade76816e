import TypedArchive.Proofs.Schema.Load

/-! The nodes of a loaded graph form a forest: a schema is placed after the schemas inside it, and
stands inside at most one. -/

namespace TypedArchive

/-- The schemas inside a schema, as far as its node keeps them. -/
def Node.children (n : Node) : List Nat :=
  n.properties.values ++ n.items.toList ++ n.additional.toList ++ n.allOf ++ n.oneOf ++ n.anyOf

namespace Graph

/-- No node is a child twice, and children come before their parents. Of the nodes that are no
children, some are held for a parent that is still to come. -/
structure Planted (g : Graph) (held : List Nat) : Prop where
  once : (g.nodes.toList.flatMap Node.children ++ held).Nodup
  held : ∀ i ∈ held, i < g.size
  descends : ∀ i n, g.node? i = some n → ∀ j ∈ n.children, j < i

theorem Planted.start : Planted {} [] where
  once := List.nodup_nil
  held := List.forall_mem_nil _
  descends _ _ found := by cases found

theorem Planted.sublist {g : Graph} {held kept : List Nat} (h : g.Planted held)
    (sub : kept.Sublist held) : g.Planted kept where
  once := h.once.sublist (sub.append_left _)
  held i mem := h.held i (sub.subset mem)
  descends := h.descends

theorem Planted.lt_of_mem {g : Graph} {held : List Nat} (h : g.Planted held) {i : Nat}
    (mem : i ∈ g.nodes.toList.flatMap Node.children ++ held) : i < g.size := by
  rcases List.mem_append.mp mem with mem | mem
  · obtain ⟨n, listed, child⟩ := List.mem_flatMap.mp mem
    obtain ⟨p, lt, found⟩ := Array.mem_iff_getElem.mp (Array.mem_toList_iff.mp listed)
    have at' : g.node? p = some n := Array.getElem?_eq_some_iff.mpr ⟨lt, found⟩
    exact Nat.lt_trans (h.descends p n at' i child) lt
  · exact h.held i mem

/-- A node whose children are held takes their place. -/
theorem Planted.push {g : Graph} {held : List Nat} {n : Node}
    (h : g.Planted (held ++ n.children)) : (g.push n).Planted (held ++ [g.size]) := by
  have size : (g.push n).size = g.size + 1 := Array.size_push ..
  have nodes : (g.push n).nodes.toList = g.nodes.toList ++ [n] := Array.toList_push
  refine ⟨?_, fun i mem => ?_, fun i m found j child => ?_⟩
  · have fresh : g.size ∉ g.nodes.toList.flatMap Node.children ++ (held ++ n.children) :=
      fun mem => Nat.lt_irrefl _ (h.lt_of_mem mem)
    have perm : (g.size :: (g.nodes.toList.flatMap Node.children ++ (held ++ n.children))).Perm
        ((g.push n).nodes.toList.flatMap Node.children ++ (held ++ [g.size])) := by
      rw [nodes, List.flatMap_append, List.flatMap_singleton, List.append_assoc]
      refine (List.perm_append_singleton _ _).symm.trans ?_
      rw [List.append_assoc, List.append_assoc]
      refine List.Perm.append_left _ ?_
      rw [← List.append_assoc, ← List.append_assoc]
      exact (List.perm_append_comm).append_right _
    exact perm.nodup_iff.mp (h.once.cons fresh)
  · rw [size]
    rcases List.mem_append.mp mem with mem | mem
    · exact Nat.lt_succ_of_lt (h.held i (List.mem_append_left _ mem))
    · rw [List.mem_singleton.mp mem]
      exact Nat.lt_succ_self _
  · have pushed : (g.nodes.push n)[i]? = some m := found
    rw [Array.getElem?_push] at pushed
    split at pushed
    · next own =>
      cases pushed
      exact own ▸ h.held j (List.mem_append_right _ child)
    · exact h.descends i m pushed j child

/-- A loading step takes some held nodes and leaves others, whatever else is held. -/
def Plants {α : Type} (taken : List Nat) (x : Load α) (left : α → List Nat) : Prop :=
  ∀ ⦃g held⦄, g.Planted (held ++ taken) → ∀ ⦃a g'⦄, x g = .ok (a, g') → g'.Planted (held ++ left a)

section Plants

variable {α β : Type} {taken : List Nat} {left : α → List Nat} {left' : β → List Nat}

theorem Plants.pure {a : α} (same : left a = taken) : Plants taken (pure a) left := by
  intro g held planted a' g' h
  cases h
  rwa [same]

theorem Plants.fail (e : SchemaError) : Plants taken (fail e) left :=
  fun _ _ _ _ _ h => absurd h Outcome.throw_run_ne_ok

theorem Plants.bind {x : Load α} {f : α → Load β} (hx : Plants taken x left)
    (hf : ∀ a, Plants (left a) (f a) left') : Plants taken (x >>= f) left' := by
  intro g held planted b g' h
  obtain ⟨a, g₁, run, h⟩ := Outcome.bind_run_eq_ok.mp h
  exact hf a (hx planted run) h

theorem Plants.lift_bind {x : Except SchemaError α} {f : α → Load β}
    (hf : ∀ a, x = .ok a → Plants taken (f a) left') : Plants taken (liftM x >>= f) left' := by
  intro g held planted b g' h
  obtain ⟨a, g₁, run, h⟩ := Outcome.bind_run_eq_ok.mp h
  obtain ⟨read, rfl⟩ := Outcome.lift_run_eq_ok.mp run
  exact hf a read planted h

/-- Held nodes may be given up. -/
theorem Plants.drop {x : Load α} {kept : α → List Nat} (hx : Plants taken x left)
    (sub : ∀ a, (kept a).Sublist (left a)) : Plants taken x kept :=
  fun _ _ planted a _ h => (hx planted h).sublist ((sub a).append_left _)

theorem Plants.map {x : Load α} {f : α → β} (hx : Plants taken x left)
    (sub : ∀ a, (left' (f a)).Sublist (left a)) : Plants taken (f <$> x) left' := by
  intro g held planted b g' h
  obtain ⟨a, run, rfl⟩ := Outcome.map_run_eq_ok.mp h
  exact (hx planted run).sublist ((sub a).append_left _)

/-- What is held besides stays held. -/
theorem Plants.frame {x : Load α} (hx : Plants [] x left) (kept : List Nat) :
    Plants kept x fun a => kept ++ left a := by
  intro g held planted a g' h
  rw [← List.append_assoc]
  exact hx (by rwa [List.append_nil]) h

theorem Plants.mapM {f : α → Load β} (xs : List α) (each : ∀ x ∈ xs, Plants [] (f x) left') :
    Plants [] (xs.mapM f) fun ys => ys.flatMap left' := by
  induction xs with
  | nil =>
    rw [List.mapM_nil]
    exact .pure rfl
  | cons x xs ih =>
    rw [List.forall_mem_cons] at each
    rw [List.mapM_cons]
    refine each.1.bind fun y => ((ih each.2).frame (left' y)).bind fun ys => ?_
    exact .pure rfl

end Plants

theorem place_plants (n : Node) : Plants n.children (place n) fun i => [i] := by
  intro g held planted i g' h
  cases h
  exact planted.push

section Children

variable {visit : Pointer → Json → Load Nat}
  (inner : ∀ pointer v, Plants [] (visit pointer v) fun i => [i])

include inner

theorem visitMembers_plants (pointer : Pointer) (keyword : String) (v : Option Json) :
    Plants [] (visitMembers visit pointer keyword v) Assoc.values := by
  rw [visitMembers.eq_def]
  split
  · next members =>
    have member (p : String × Json) :
        Plants [] (do return (p.1, ← visit (pointer ++ [keyword, p.1]) p.2) : Load (String × Nat))
          fun child => [child.2] :=
      (inner _ _).bind fun i => .pure rfl
    have all := Plants.mapM members fun p _ => member p
    have same (children : Assoc Nat) : children.flatMap (fun child => [child.2]) =
        children.values := List.flatMap_pure_eq_map Prod.snd children
    simpa only [same] using all
  · exact .pure rfl

theorem visitBranches_plants (document : String) (pointer : Pointer) (keyword : String)
    (v : Option Json) : Plants [] (visitBranches visit document pointer keyword v) id := by
  rw [visitBranches.eq_def]
  split
  · next schemas =>
    have all := Plants.mapM schemas.zipIdx fun p _ =>
      inner (pointer ++ [keyword, toString p.2]) p.1
    have same (children : List Nat) : children.flatMap (fun i => [i]) = id children :=
      List.flatMap_singleton' children
    simpa only [same] using all
  · exact .fail _
  · exact .pure rfl

theorem visitItems_plants (pointer : Pointer) (v : Option Json) :
    Plants [] (visitItems visit pointer v) Option.toList := by
  rw [visitItems.eq_def]
  split
  · exact (inner _ _).map fun _ => List.Sublist.refl _
  · exact (inner _ _).map fun _ => List.Sublist.refl _
  · exact .pure rfl

theorem visitAdditional_plants (pointer : Pointer) (members : Assoc Json) :
    Plants [] (visitAdditional visit pointer members) Option.toList := by
  rw [visitAdditional]
  split
  · exact (inner _ _).map fun _ => List.Sublist.refl _
  · rw [← map_eq_pure_bind]
    refine (visitMembers_plants inner pointer _ _).map fun patterns => ?_
    cases patterns with
    | nil => exact List.Sublist.refl _
    | cons p rest => exact (List.nil_sublist _).cons_cons _

theorem visitKeywords_plants (document : String) (pointer : Pointer) (schema : Json)
    (members : Assoc Json) :
    Plants [] (visitKeywords visit document pointer schema members) fun i => [i] := by
  rw [visitKeywords]
  refine .lift_bind fun keywords _ => .lift_bind fun declared _ => ?_
  -- Definitions are nodes of their own, and the schema does not hold on to them.
  refine ((visitMembers_plants inner _ _ _).drop fun _ => List.nil_sublist _).bind fun _ => ?_
  refine ((visitMembers_plants inner _ _ _).drop fun _ => List.nil_sublist _).bind fun _ => ?_
  refine (visitMembers_plants inner _ _ _).bind fun properties => ?_
  refine ((visitItems_plants inner _ _).frame _).bind fun items => ?_
  refine ((visitAdditional_plants inner _ _).frame _).bind fun additional => ?_
  refine ((visitBranches_plants inner _ _ _ _).frame _).bind fun allOf => ?_
  refine ((visitBranches_plants inner _ _ _ _).frame _).bind fun oneOf => ?_
  refine ((visitBranches_plants inner _ _ _ _).frame _).bind fun anyOf => ?_
  refine .lift_bind fun kind _ => ?_
  exact place_plants
    { keywords with properties, items, additional, allOf, oneOf, anyOf, kind }

end Children

theorem visit_plants (document : String) (depth : Nat) (pointer : Pointer) (v : Json) :
    Plants [] (visit document depth pointer v) fun i => [i] := by
  induction depth generalizing pointer v with
  | zero =>
    rw [visit.eq_def]
    exact .fail _
  | succ depth ih =>
    cases v with
    | object members | bool b =>
      rw [visit]
      exact visitKeywords_plants ih document pointer _ _
    | null | number _ | string _ | array _ =>
      rw [visit.eq_def]
      exact .fail _

theorem loadDocument_plants (name text : String) :
    Plants [] (loadDocument name text) fun _ => [] := by
  rw [loadDocument]
  split
  · exact .fail _
  · next v _ =>
    refine ((visit_plants _ _ _ _).drop fun _ => List.nil_sublist _).bind fun root => ?_
    intro g held planted u g' h
    cases h
    exact ⟨planted.once, planted.held, planted.descends⟩

theorem loadDocuments_plants (documents : Assoc String) :
    Plants [] (documents.forM fun p => loadDocument p.1 p.2) fun _ => [] := by
  induction documents with
  | nil => exact .pure rfl
  | cons p documents ih =>
    rw [List.forM_eq_forM, List.forM_cons]
    exact (loadDocument_plants p.1 p.2).bind fun _ => ih

theorem link_children {g : Graph} {n n' : Node} (h : g.link n = .ok n') :
    n'.children = n.children := by
  rw [link] at h
  split at h
  · cases h
    rfl
  · split at h
    · cases h
      rfl
    · cases h

/-- No node stands inside two nodes, and children come before their parents. -/
theorem planted_of_load {b : Bundle} {g : Graph} (h : load b = .ok g) : g.Planted [] := by
  obtain ⟨g₀, read, -, each⟩ := exists_readAll_of_load h
  obtain ⟨u, read⟩ := readAll_eq_ok read
  have planted : g₀.Planted ([] ++ []) := loadDocuments_plants b.documents Planted.start read
  have same : g.nodes.toList.map Node.children = g₀.nodes.toList.map Node.children := by
    refine (Outcome.map_eq_map_iff.mpr ⟨each.length_eq, fun p mem => ?_⟩).symm
    exact (link_children (List.forall₂_zip each mem)).symm
  refine ⟨?_, List.forall_mem_nil _, fun i n found j child => ?_⟩
  · have once := planted.once
    rw [List.flatMap, ← same] at once
    exact once
  · have place : (g.nodes.toList.map Node.children)[i]? = some n.children := by
      rw [List.getElem?_map, Array.getElem?_toList]
      exact congrArg (Option.map Node.children) found
    rw [same, List.getElem?_map, Array.getElem?_toList] at place
    obtain ⟨m, found, children⟩ := Option.map_eq_some_iff.mp place
    exact planted.descends i m found j (children ▸ child)

end Graph

end TypedArchive
