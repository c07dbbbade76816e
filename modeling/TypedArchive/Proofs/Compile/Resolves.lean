import TypedArchive.Proofs.Compile.Owners

/-! Nothing fails for want of the target of a reference while a loaded graph is compiled: loading
has found all targets. -/

namespace TypedArchive.Compile

/-- The error is not that a reference leads nowhere. -/
def Resolves (e : SchemaError) : Prop := ∀ raw id, e ≠ .unresolvedReference raw id

/-- A run that fails with such errors only, from whatever state. -/
def Resolving {α : Type} (x : Build α) : Prop := ∀ ⦃s e⦄, x s = .error e → Resolves e

section Resolving

variable {α β : Type}

theorem Resolving.pure (a : α) : Resolving (pure a) := by
  intro s e h
  cases h

theorem Resolving.fail {e : SchemaError} (resolves : Resolves e) :
    Resolving (fail e : Build α) := by
  intro s e' h
  cases h
  exact resolves

theorem Resolving.modify (f : State → State) : Resolving (modify f : Build Unit) := by
  intro s e h
  cases h

theorem Resolving.bind {x : Build α} {f : α → Build β} (hx : Resolving x)
    (hf : ∀ a, Resolving (f a)) : Resolving (x >>= f) := by
  intro s e h
  change (x s >>= fun p => f p.1 p.2) = .error e at h
  rcases Outcome.bind_eq_error.mp h with first | ⟨p, -, h⟩
  · exact hx first
  · exact hf p.1 h

theorem Resolving.lift_bind {x : Except SchemaError α} {f : α → Build β}
    (resolves : ∀ e, x = .error e → Resolves e) (hf : ∀ a, Resolving (f a)) :
    Resolving (liftM x >>= f) := by
  cases x with
  | error e => exact Resolving.fail (α := β) (resolves e rfl)
  | ok a => exact hf a

theorem Resolving.fail_bind {e : SchemaError} {f : α → Build β} (resolves : Resolves e) :
    Resolving (Compile.fail e >>= f) :=
  Resolving.fail (α := β) resolves

theorem Resolving.map {x : Build α} (f : α → β) (hx : Resolving x) : Resolving (f <$> x) :=
  hx.bind fun _ => .pure _

theorem Resolving.get_bind {f : State → Build α} (h : ∀ s, Resolving (f s)) :
    Resolving (get >>= f) :=
  fun s _ fails => h s fails

/-- A result that is wrapped twice before it is used. -/
theorem Resolving.map_map_bind {γ δ : Type} {x : Build α} {f : α → β} {f' : β → γ}
    {k : γ → Build δ} (hx : Resolving x) (hk : ∀ a, Resolving (k (f' (f a)))) :
    Resolving ((f' <$> f <$> x) >>= k) := by
  rw [bind_map_left, bind_map_left]
  exact hx.bind hk

end Resolving

section Errors

theorem refTarget_ok_of_linked {g : Graph} (loaded : g.Loaded) {i : Nat}
    (kind : (node g i).kind = .ref) : ∃ j, refTarget g i = .ok j := by
  cases found : g.nodes[i]? with
  | none =>
    rw [node, Graph.node?, found] at kind
    cases kind
  | some n =>
    rw [node, Graph.node?, found] at kind
    obtain ⟨target, linked⟩ :=
      loaded.linked n (Array.mem_toList_iff.mpr (Array.mem_of_getElem? found)) kind
    refine ⟨target, ?_⟩
    have leads : g.refTarget? i = some target := by
      rw [Graph.refTarget?, Graph.node?, found]
      exact linked
    rw [refTarget, leads]

theorem refTarget_resolves {g : Graph} (loaded : g.Loaded) {i : Nat}
    (kind : (node g i).kind = .ref) {e : SchemaError} (h : refTarget g i = .error e) :
    Resolves e := by
  obtain ⟨j, target⟩ := refTarget_ok_of_linked loaded kind
  rw [target] at h
  cases h

theorem constantOf_error {n : Node} {e : SchemaError} (h : constantOf n = .error e) :
    ∃ v, e = .unsupported (.constValue v) n.id := by
  rw [constantOf] at h
  split at h <;> cases h
  exact ⟨_, rfl⟩

theorem enumOf_error {n : Node} {e : SchemaError} (h : enumOf n = .error e) :
    ∃ v, e = .unsupported (.enumValue v) n.id := by
  rw [enumOf] at h
  rcases Outcome.bind_eq_error.mp h with read | ⟨literals, -, h⟩
  · obtain ⟨v, -, fails⟩ := Outcome.exists_of_mapM_eq_error read
    split at fails <;> cases fails
    exact ⟨v, rfl⟩
  · cases h

theorem add_error {m : Merged} {root name : String} {type : TypeRef} {description : Option String}
    {e : SchemaError} (h : m.add root name type description = .error e) :
    ∃ old new, e = .compositionConflict name root old new := by
  rw [Merged.add] at h
  split at h
  · cases h
  · split at h <;> cases h
    exact ⟨_, _, rfl⟩

theorem constantOf_resolves {n : Node} {e : SchemaError} (h : constantOf n = .error e) :
    Resolves e := by
  obtain ⟨v, rfl⟩ := constantOf_error h
  exact fun _ _ => SchemaError.noConfusion

theorem enumOf_resolves {n : Node} {e : SchemaError} (h : enumOf n = .error e) : Resolves e := by
  obtain ⟨v, rfl⟩ := enumOf_error h
  exact fun _ _ => SchemaError.noConfusion

theorem add_resolves {m : Merged} {root name : String} {type : TypeRef}
    {description : Option String} {e : SchemaError}
    (h : m.add root name type description = .error e) : Resolves e := by
  obtain ⟨old, new, rfl⟩ := add_error h
  exact fun _ _ => SchemaError.noConfusion

end Errors

/-- What each function of the compiler does within a budget. -/
structure AllResolve (g : Graph) (budget : Nat) : Prop where
  compileNamed : ∀ i name, Resolving (compileNamed g budget i name)
  typeRef : ∀ i hint, Resolving (typeRef g budget i hint)
  itemsRef : ∀ n owner, Resolving (itemsRef g budget n owner)
  recordFields : ∀ n owner properties, Resolving (recordFields g budget n owner properties)
  collectFields : ∀ root i owner visiting m,
    Resolving (collectFields g budget root i owner visiting m)
  collectBranches : ∀ root branches owner visiting m,
    Resolving (collectBranches g budget root branches owner visiting m)
  mergeProperties : ∀ root owner properties m,
    Resolving (mergeProperties g budget root owner properties m)
  deferUnion : ∀ i name, Resolving (deferUnion g budget i name)
  branchRefs : ∀ name place branches, Resolving (branchRefs g budget name place branches)

section Step

variable {g : Graph} {budget : Nat} (loaded : g.Loaded) (resolve : AllResolve g budget)

include resolve

theorem itemsRef_resolving (n : Node) (owner : String) :
    Resolving (itemsRef g (budget + 1) n owner) := by
  rw [itemsRef]
  split
  · exact resolve.typeRef _ _
  · exact .pure _

theorem recordFields_resolving (n : Node) (owner : String) (properties : Assoc Nat) :
    Resolving (recordFields g (budget + 1) n owner properties) := by
  cases properties with
  | nil =>
    rw [recordFields]
    swap; exact Nat.succ_ne_zero _
    exact .pure _
  | cons p rest =>
    rw [recordFields]
    refine (resolve.typeRef _ _).bind fun type => ?_
    exact (resolve.recordFields _ _ _).bind fun _ => .pure _

theorem mergeProperties_resolving (root owner : String) (properties : Assoc Nat) (m : Merged) :
    Resolving (mergeProperties g (budget + 1) root owner properties m) := by
  cases properties with
  | nil =>
    rw [mergeProperties]
    swap; exact Nat.succ_ne_zero _
    exact .pure _
  | cons p rest =>
    rw [mergeProperties]
    refine (resolve.typeRef _ _).bind fun type => ?_
    exact .lift_bind (fun e => add_resolves) fun m' => resolve.mergeProperties _ _ _ _

theorem branchRefs_resolving (name : String) (place : Nat) (branches : List Nat) :
    Resolving (branchRefs g (budget + 1) name place branches) := by
  cases branches with
  | nil =>
    rw [branchRefs]
    swap; exact Nat.succ_ne_zero _
    exact .pure _
  | cons b rest =>
    rw [branchRefs]
    refine (resolve.typeRef _ _).bind fun type => ?_
    exact (resolve.branchRefs _ _ _).bind fun _ => .pure _

theorem deferUnion_resolving (i : Nat) (name : String) :
    Resolving (deferUnion g (budget + 1) i name) := by
  rw [deferUnion]
  exact (resolve.branchRefs _ _ _).bind fun branches => .modify _

theorem collectBranches_resolving (root : String) (branches : List Nat) (owner : String)
    (visiting : List Nat) (m : Merged) :
    Resolving (collectBranches g (budget + 1) root branches owner visiting m) := by
  cases branches with
  | nil =>
    rw [collectBranches]
    swap; exact Nat.succ_ne_zero _
    exact .pure _
  | cons b rest =>
    rw [collectBranches]
    refine (resolve.collectFields _ _ _ _ _).bind fun m' => ?_
    exact resolve.collectBranches _ _ _ _ _

/-- A node that stands inside another type gets an entry of its own. -/
theorem hoist_resolving (i : Nat) (hint : String) :
    Resolving (do
      let name ← reserveName i (TypeName.sanitize hint)
      compileNamed g budget i name
      return .named name : Build TypeRef) := by
  intro s e h
  exact ((resolve.compileNamed _ _).bind fun _ => Resolving.pure (TypeRef.named _)) h

include loaded

theorem collectFields_resolving (root : String) (i : Nat) (owner : String) (visiting : List Nat)
    (m : Merged) : Resolving (collectFields g (budget + 1) root i owner visiting m) := by
  rw [collectFields]
  dsimp only
  split
  · exact .fail_bind fun _ _ => SchemaError.noConfusion
  · cases kind : (node g i).kind with
    | ref =>
      refine .lift_bind (fun e => refTarget_resolves loaded kind) fun j => ?_
      exact resolve.collectFields _ _ _ _ _
    | composition =>
      simp only
      split
      · exact .fail_bind fun _ _ => SchemaError.noConfusion
      · refine (resolve.mergeProperties _ _ _ _).bind fun m' => ?_
        exact resolve.collectBranches _ _ _ _ _
    | object => exact resolve.mergeProperties _ _ _ _
    | any => exact .pure _
    | _ => exact .fail fun _ _ => SchemaError.noConfusion

theorem typeRef_resolving (i : Nat) (hint : String) :
    Resolving (typeRef g (budget + 1) i hint) := by
  rw [typeRef]
  refine .get_bind fun s => ?_
  dsimp only
  cases s.names.lookup i with
  | some name => exact .pure _
  | none =>
    cases branch : singleBranch (node g i) with
    | some b => exact resolve.typeRef _ _
    | none =>
      cases kind : (node g i).kind with
      | ref =>
        exact .lift_bind (fun e => refTarget_resolves loaded kind) fun j => resolve.typeRef _ _
      | primitive p => exact .pure _
      | any => exact .pure _
      | constant => exact .lift_bind (fun e => constantOf_resolves) fun l => .pure _
      | enumeration =>
        simp only
        split
        · refine .lift_bind (fun e => enumOf_resolves) fun values => ?_
          split
          · exact .pure _
          · exact hoist_resolving resolve _ _
        · exact hoist_resolving resolve _ _
      | array => exact (resolve.itemsRef _ _).bind fun t => .pure _
      | object =>
        simp only
        split
        · split
          · exact (resolve.typeRef _ _).bind fun t => .pure _
          · exact .pure _
        · exact hoist_resolving resolve _ _
      | composition => exact hoist_resolving resolve _ _

theorem compileNamed_resolving (i : Nat) (name : String) :
    Resolving (compileNamed g (budget + 1) i name) := by
  rw [compileNamed]
  dsimp only
  cases kind : (node g i).kind with
  | ref =>
    refine .lift_bind (fun e => refTarget_resolves loaded kind) fun j => ?_
    exact .map_map_bind (resolve.typeRef _ _) fun t => .modify _
  | composition =>
    simp only
    split
    · exact .map_map_bind (resolve.typeRef _ _) fun t => .modify _
    · split
      · split
        · exact .fail_bind fun _ _ => SchemaError.noConfusion
        · exact (resolve.collectFields _ _ _ _ _).bind fun m => .modify _
      · exact (resolve.deferUnion _ _).bind fun _ => .pure _
  | object =>
    simp only
    split
    · exact .map_map_bind ((resolve.typeRef _ _).map _) fun t => .modify _
    · exact .map_map_bind (resolve.recordFields _ _ _) fun t => .modify _
  | array => exact .map_map_bind (resolve.itemsRef _ _) fun t => .modify _
  | enumeration => exact .lift_bind (fun e => enumOf_resolves) fun values => .modify _
  | constant => exact .lift_bind (fun e => constantOf_resolves) fun l => .modify _
  | primitive p => exact .modify _
  | any => exact .modify _

end Step

/-- Every function of the compiler finds the targets, by induction on the budget. -/
theorem allResolve {g : Graph} (loaded : g.Loaded) (budget : Nat) : AllResolve g budget := by
  induction budget with
  | zero =>
    refine ⟨fun _ _ => ?_, fun _ _ => ?_, fun _ _ => ?_, fun _ _ _ => ?_, fun _ _ _ _ _ => ?_,
      fun _ _ _ _ _ => ?_, fun _ _ _ _ => ?_, fun _ _ => ?_, fun _ _ _ => ?_⟩
    · rw [compileNamed]
      exact .fail fun _ _ => SchemaError.noConfusion
    · rw [typeRef]
      exact .fail fun _ _ => SchemaError.noConfusion
    · rw [itemsRef]
      exact .fail fun _ _ => SchemaError.noConfusion
    · rw [recordFields]
      exact .fail fun _ _ => SchemaError.noConfusion
    · rw [collectFields]
      exact .fail fun _ _ => SchemaError.noConfusion
    · rw [collectBranches]
      exact .fail fun _ _ => SchemaError.noConfusion
    · rw [mergeProperties]
      exact .fail fun _ _ => SchemaError.noConfusion
    · rw [deferUnion]
      exact .fail fun _ _ => SchemaError.noConfusion
    · rw [branchRefs]
      exact .fail fun _ _ => SchemaError.noConfusion
  | succ budget ih =>
    exact ⟨compileNamed_resolving loaded ih, typeRef_resolving loaded ih, itemsRef_resolving ih,
      recordFields_resolving ih, collectFields_resolving loaded ih, collectBranches_resolving ih,
      mergeProperties_resolving ih, deferUnion_resolving ih, branchRefs_resolving ih⟩

theorem buildEntries_resolves {g : Graph} (loaded : g.Loaded) {e : SchemaError}
    (h : buildEntries g {} = .error e) : Resolves e := by
  obtain ⟨names, s, run, -⟩ := reserveNames_owned loaded
  have all : Resolving (names.forM fun p => compileNamed g (budget g) p.1 p.2) := by
    clear run
    induction names with
    | nil => exact .pure _
    | cons p names ih =>
      rw [List.forM_eq_forM, List.forM_cons]
      exact ((allResolve loaded _).compileNamed _ _).bind fun _ => ih
  change (reserveNames g {} >>= fun p =>
    (p.1.forM fun p => compileNamed g (budget g) p.1 p.2) p.2) = _ at h
  rw [run] at h
  exact all h

end TypedArchive.Compile
