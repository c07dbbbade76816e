import TypedArchive.Proofs.Compile.Entries
import TypedArchive.Proofs.Compile.Narrow
import TypedArchive.Proofs.Compile.Standing

/-! What each call of the compiler does to the state and gives back, whatever the state was: the
state becomes a later one, the type of a node is the one that stands for it from then on, and what
an `allOf` merges is absorbed. -/

namespace TypedArchive.Compile

/-- A successful run leads to a later state, and something holds of its result. -/
def Advances {α : Type} (g : Graph) (x : Build α) (s : State) (post : α → State → Prop) : Prop :=
  ∀ ⦃a s'⦄, x s = .ok (a, s') → Later g s s' ∧ post a s'

section Advances

variable {α β : Type} {g : Graph} {s : State} {post : α → State → Prop} {post' : β → State → Prop}

theorem Advances.pure {a : α} (holds : post a s) : Advances g (pure a) s post := by
  intro a' s' h
  cases h
  exact ⟨.refl, holds⟩

theorem Advances.fail (e : SchemaError) : Advances g (fail e) s post :=
  fun _ _ h => absurd h Outcome.throw_run_ne_ok

theorem Advances.imp {x : Build α} {weaker : α → State → Prop} (hx : Advances g x s post)
    (weaken : ∀ a s', Later g s s' → post a s' → weaker a s') : Advances g x s weaker := by
  intro a s' h
  obtain ⟨later, holds⟩ := hx h
  exact ⟨later, weaken a s' later holds⟩

theorem Advances.bind {x : Build α} {f : α → Build β} (hx : Advances g x s post)
    (hf : ∀ a s', Later g s s' → post a s' → Advances g (f a) s' post') :
    Advances g (x >>= f) s post' := by
  intro b s' h
  obtain ⟨a, s₁, run, h⟩ := Outcome.bind_run_eq_ok.mp h
  obtain ⟨later, holds⟩ := hx run
  obtain ⟨later', holds'⟩ := hf a s₁ later holds h
  exact ⟨later.trans later', holds'⟩

theorem Advances.lift_bind {x : Except SchemaError α} {f : α → Build β}
    (hf : ∀ a, x = .ok a → Advances g (f a) s post') : Advances g (liftM x >>= f) s post' := by
  intro b s' h
  obtain ⟨a, s₁, run, h⟩ := Outcome.bind_run_eq_ok.mp h
  obtain ⟨ok, rfl⟩ := Outcome.lift_run_eq_ok.mp run
  exact hf a ok h

theorem Advances.fail_bind (e : SchemaError) (f : α → Build β) :
    Advances g (Compile.fail e >>= f) s post' :=
  Advances.fail (α := β) e

theorem Advances.map {x : Build α} (f : α → β) (hx : Advances g x s post) :
    Advances g (f <$> x) s fun b s' => ∃ a, f a = b ∧ post a s' := by
  intro b s' h
  obtain ⟨a, run, rfl⟩ := Outcome.map_run_eq_ok.mp h
  exact ⟨(hx run).1, a, rfl, (hx run).2⟩

theorem Advances.get_bind {f : State → Build α} (h : Advances g (f s) s post) :
    Advances g (get >>= f) s post := h

/-- A result that is wrapped twice before it is used. -/
theorem Advances.map_map_bind {γ δ : Type} {x : Build α} {f : α → β} {f' : β → γ}
    {k : γ → Build δ} {post' : δ → State → Prop} (hx : Advances g x s post)
    (hk : ∀ a s', Later g s s' → post a s' → Advances g (k (f' (f a))) s' post') :
    Advances g ((f' <$> f <$> x) >>= k) s post' := by
  rw [bind_map_left, bind_map_left]
  exact hx.bind hk

end Advances

/-- The type that stands for a property's node is absorbed by the field of its name. -/
def PropertyAbsorbed (g : Graph) (names : Names) (m : Merged) (p : String × Nat) : Prop :=
  ∃ fuel t, standing g names fuel p.2 = some t ∧ m.Absorbs p.1 t (node g p.2).description

/-- A part of an `allOf` has been merged. -/
structure Absorbed (g : Graph) (names : Names) (m : Merged) (j : Nat) : Prop where
  mergeable : Mergeable (node g j)
  required : (node g j).required ⊆ m.required
  properties : ∀ p ∈ partProperties (node g j), PropertyAbsorbed g names m p

section Absorbed

variable {g : Graph} {names names' : Names} {m m' : Merged}

theorem PropertyAbsorbed.mono {p : String × Nat} (h : PropertyAbsorbed g names m p)
    (grown : Grown g names names') (narrows : m.Narrows m') :
    PropertyAbsorbed g names' m' p := by
  obtain ⟨fuel, t, stands, absorbs⟩ := h
  exact ⟨fuel, t, standing_mono grown le_rfl stands, absorbs.mono narrows⟩

theorem Absorbed.mono {j : Nat} (h : Absorbed g names m j) (grown : Grown g names names')
    (narrows : m.Narrows m') : Absorbed g names' m' j where
  mergeable := h.mergeable
  required := List.Subset.trans h.required narrows.required
  properties p mem := (h.properties p mem).mono grown narrows

/-- A node whose keys were required before its properties were merged. -/
theorem Absorbed.own {i : Nat} (mergeable : Mergeable (node g i))
    (narrows : Merged.Narrows { m with required := m.required ++ (node g i).required } m')
    (properties : ∀ p ∈ partProperties (node g i), PropertyAbsorbed g names m' p) :
    Absorbed g names m' i where
  mergeable := mergeable
  required := List.Subset.trans (List.subset_append_right _ _) narrows.required
  properties := properties

end Absorbed

/-- What each call does within a budget. -/
structure AllAdvance (g : Graph) (budget : Nat) : Prop where
  compileNamed : ∀ {s i name}, (i, name) ∈ s.names →
    Advances g (compileNamed g budget i name) s fun _ _ => True
  typeRef : ∀ i hint s, Advances g (typeRef g budget i hint) s fun t s' =>
    standing g s'.names budget i = some t
  itemsRef : ∀ n owner s, Advances g (itemsRef g budget n owner) s fun t s' =>
    childType (standing g s'.names budget) n.items = some t
  recordFields : ∀ n owner properties s,
    Advances g (recordFields g budget n owner properties) s fun _ _ => True
  collectFields : ∀ root i owner visiting m s,
    Advances g (collectFields g budget root i owner visiting m) s fun m' s' =>
      m.Narrows m' ∧ ∀ j, Part g i j → Absorbed g s'.names m' j
  collectBranches : ∀ root branches owner visiting m s,
    Advances g (collectBranches g budget root branches owner visiting m) s fun m' s' =>
      m.Narrows m' ∧ ∀ b ∈ branches, ∀ j, Part g b j → Absorbed g s'.names m' j
  mergeProperties : ∀ root owner properties m s,
    Advances g (mergeProperties g budget root owner properties m) s fun m' s' =>
      m.Narrows m' ∧ ∀ p ∈ properties, PropertyAbsorbed g s'.names m' p
  deferUnion : ∀ {s i name}, (i, name) ∈ s.names →
    Advances g (deferUnion g budget i name) s fun _ _ => True
  branchRefs : ∀ name place branches s,
    Advances g (branchRefs g budget name place branches) s fun _ _ => True

/-- An enumeration of one value has a literal. -/
theorem enumOf_ne_nil {n : Node} {values : List Literal} {descriptions : List String}
    (one : (n.enumValues.getD []).length = 1) (h : enumOf n = .ok (values, descriptions)) :
    values ≠ [] := by
  rw [enumOf] at h
  obtain ⟨literals, read, h⟩ := Outcome.bind_eq_ok.mp h
  cases h
  have length := (Outcome.mapM_eq_ok.mp read).length_eq
  rw [one] at length
  obtain ⟨l, rfl⟩ := List.length_eq_one_iff.mp length.symm
  rw [List.eraseDups_cons]
  exact List.cons_ne_nil _ _

/-- Making the entry of a name that a node owns. -/
theorem enter_advances {g : Graph} {s s' : State} {i : Nat} {name : String}
    (owner : (i, name) ∈ s.names) (later : Later g s s') (type : TypeDef) :
    Advances g (modify fun s => { s with
      catalog := s.catalog.insert { name, origin := (node g i).id,
                                    description := (node g i).description, type } } :
        Build Unit) s' fun _ _ => True := by
  intro u s'' h
  cases h
  have owner' := later.subset owner
  exact ⟨.single (.enter (e := ⟨name, (node g i).id, (node g i).description, type⟩) owner' rfl),
    trivial⟩

/-- A node that needs no entry and had no name has none later. -/
theorem standing_of_unnamedType {g : Graph} {names names' : Names} {fuel i : Nat} {t : TypeRef}
    (grown : Grown g names names') (unnamed : names.lookup i = none)
    (h : unnamedType g (standing g names' fuel) i = some t) :
    standing g names' (fuel + 1) i = some t := by
  rw [standing]
  cases found : names'.lookup i with
  | none => exact h
  | some name =>
    rw [unnamedType_of_hoists (grown.fresh i name unnamed found)] at h
    cases h

section Step

variable {g : Graph} {budget : Nat} (advance : AllAdvance g budget)

include advance

theorem itemsRef_advances (n : Node) (owner : String) (s : State) :
    Advances g (itemsRef g (budget + 1) n owner) s fun t s' =>
      childType (standing g s'.names (budget + 1)) n.items = some t := by
  rw [itemsRef]
  cases n.items with
  | some j =>
    refine (advance.typeRef _ _ _).imp fun t s' _ stands => ?_
    exact standing_mono (.refl g _) (Nat.le_succ _) stands
  | none => exact .pure rfl

theorem recordFields_advances (n : Node) (owner : String) (properties : Assoc Nat) (s : State) :
    Advances g (recordFields g (budget + 1) n owner properties) s fun _ _ => True := by
  cases properties with
  | nil =>
    rw [recordFields]
    swap; exact Nat.succ_ne_zero _
    exact .pure trivial
  | cons p rest =>
    rw [recordFields]
    refine (advance.typeRef _ _ _).bind fun type _ _ _ => ?_
    exact (advance.recordFields _ _ _ _).bind fun _ _ _ _ => .pure trivial

theorem mergeProperties_advances (root owner : String) (properties : Assoc Nat) (m : Merged)
    (s : State) :
    Advances g (mergeProperties g (budget + 1) root owner properties m) s fun m' s' =>
      m.Narrows m' ∧ ∀ p ∈ properties, PropertyAbsorbed g s'.names m' p := by
  cases properties with
  | nil =>
    rw [mergeProperties]
    swap; exact Nat.succ_ne_zero _
    exact .pure ⟨.refl m, List.forall_mem_nil _⟩
  | cons p rest =>
    rw [mergeProperties]
    refine (advance.typeRef _ _ _).bind fun t s₁ _ stands => ?_
    refine .lift_bind fun m₁ added => ?_
    obtain ⟨narrows, absorbs⟩ := Merged.add_absorbs added
    refine (advance.mergeProperties _ _ _ _ _).imp fun m' s' later merged => ?_
    obtain ⟨narrows', others⟩ := merged
    refine ⟨narrows.trans narrows', List.forall_mem_cons.mpr ⟨?_, others⟩⟩
    have own : PropertyAbsorbed g s₁.names m₁ p := ⟨budget, t, stands, absorbs⟩
    exact own.mono later.grown narrows'

theorem branchRefs_advances (name : String) (place : Nat) (branches : List Nat) (s : State) :
    Advances g (branchRefs g (budget + 1) name place branches) s fun _ _ => True := by
  cases branches with
  | nil =>
    rw [branchRefs]
    swap; exact Nat.succ_ne_zero _
    exact .pure trivial
  | cons b rest =>
    rw [branchRefs]
    refine (advance.typeRef _ _ _).bind fun type _ _ _ => ?_
    exact (advance.branchRefs _ _ _ _).bind fun _ _ _ _ => .pure trivial

theorem deferUnion_advances {s : State} {i : Nat} {name : String} (owner : (i, name) ∈ s.names) :
    Advances g (deferUnion g (budget + 1) i name) s fun _ _ => True := by
  rw [deferUnion]
  refine (advance.branchRefs _ _ _ _).bind fun branches s₁ later _ => ?_
  intro u s' h
  cases h
  exact ⟨.single (.queue (u := ⟨name, i, branches⟩) (later.subset owner)), trivial⟩

theorem collectBranches_advances (root : String) (branches : List Nat) (owner : String)
    (visiting : List Nat) (m : Merged) (s : State) :
    Advances g (collectBranches g (budget + 1) root branches owner visiting m) s fun m' s' =>
      m.Narrows m' ∧ ∀ b ∈ branches, ∀ j, Part g b j → Absorbed g s'.names m' j := by
  cases branches with
  | nil =>
    rw [collectBranches]
    swap; exact Nat.succ_ne_zero _
    exact .pure ⟨.refl m, List.forall_mem_nil _⟩
  | cons b rest =>
    rw [collectBranches]
    refine (advance.collectFields _ _ _ _ _ _).bind fun m₁ s₁ _ merged => ?_
    obtain ⟨narrows, first⟩ := merged
    refine (advance.collectBranches _ _ _ _ _ _).imp fun m' s' later merged => ?_
    obtain ⟨narrows', others⟩ := merged
    refine ⟨narrows.trans narrows', List.forall_mem_cons.mpr ⟨fun j part => ?_, others⟩⟩
    exact (first j part).mono later.grown narrows'

theorem collectFields_advances (root : String) (i : Nat) (owner : String) (visiting : List Nat)
    (m : Merged) (s : State) :
    Advances g (collectFields g (budget + 1) root i owner visiting m) s fun m' s' =>
      m.Narrows m' ∧ ∀ j, Part g i j → Absorbed g s'.names m' j := by
  rw [collectFields]
  dsimp only
  split
  · exact .fail_bind _ _
  have start := Merged.Narrows.require m (node g i).required
  cases kind : (node g i).kind with
  | ref =>
    have mergeable : Mergeable (node g i) := by simp [Mergeable, kind]
    refine .lift_bind fun j target => ?_
    refine (advance.collectFields _ _ _ _ _ _).imp fun m' s' _ merged => ?_
    obtain ⟨narrows, parts⟩ := merged
    refine ⟨start.trans narrows, fun k part => ?_⟩
    rcases (part_ref_iff kind (refTarget_ok target)).mp part with rfl | part
    · exact .own mergeable narrows (by simp [partProperties, kind])
    · exact parts k part
  | composition =>
    simp only
    split
    · exact .fail_bind _ _
    next none =>
    have mergeable : Mergeable (node g i) := by simpa [Mergeable, kind] using none
    refine (advance.mergeProperties _ _ _ _ _).bind fun m₁ s₁ _ merged => ?_
    obtain ⟨narrows, own⟩ := merged
    refine (advance.collectBranches _ _ _ _ _ _).imp fun m' s' later merged => ?_
    obtain ⟨narrows', parts⟩ := merged
    refine ⟨start.trans (narrows.trans narrows'), fun k part => ?_⟩
    rcases (part_composition_iff kind).mp part with rfl | ⟨b, mem, part⟩
    · refine .own mergeable (narrows.trans narrows') fun p mem => ?_
      have mem : p ∈ (node g k).properties := by simpa [partProperties, kind] using mem
      exact (own p mem).mono later.grown narrows'
    · exact parts b mem k part
  | object =>
    have mergeable : Mergeable (node g i) := by simp [Mergeable, kind]
    refine (advance.mergeProperties _ _ _ _ _).imp fun m' s' _ merged => ?_
    obtain ⟨narrows, own⟩ := merged
    refine ⟨start.trans narrows, fun k part => ?_⟩
    obtain rfl := (part_plain_iff (by simp [kind]) (by simp [kind])).mp part
    exact .own mergeable narrows (by simpa [partProperties, kind] using own)
  | any =>
    have mergeable : Mergeable (node g i) := by simp [Mergeable, kind]
    refine .pure ⟨start, fun k part => ?_⟩
    obtain rfl := (part_plain_iff (by simp [kind]) (by simp [kind])).mp part
    exact .own mergeable (.refl _) (by simp [partProperties, kind])
  | _ => exact .fail _

/-- A node that gets an entry of its own stands for its name. -/
theorem hoist_advances {i : Nat} {hint : String} {s : State} (unnamed : s.names.lookup i = none)
    (needs : hoists (node g i) = true) :
    Advances g (do
      let name ← reserveName i (TypeName.sanitize hint)
      compileNamed g budget i name
      return .named name : Build TypeRef) s fun t s' =>
        standing g s'.names (budget + 1) i = some t := by
  have first : Later g s (s.own i (TypeName.firstFree s.taken (TypeName.sanitize hint))) :=
    .single (.own _ unnamed needs)
  intro t s' h
  obtain ⟨name, s₁, reserve, h⟩ := Outcome.bind_run_eq_ok.mp h
  rw [reserveName_run, Except.ok.injEq, Prod.mk.injEq] at reserve
  obtain ⟨rfl, rfl⟩ := reserve
  obtain ⟨u, s₂, run, h⟩ := Outcome.bind_run_eq_ok.mp h
  cases h
  obtain ⟨later, -⟩ := advance.compileNamed List.mem_cons_self run
  have named := later.grown.kept i _ List.lookup_cons_self
  refine ⟨first.trans later, ?_⟩
  simp only [standing, named]

theorem typeRef_advances (i : Nat) (hint : String) (s : State) :
    Advances g (typeRef g (budget + 1) i hint) s fun t s' =>
      standing g s'.names (budget + 1) i = some t := by
  rw [typeRef]
  refine .get_bind ?_
  dsimp only
  cases unnamed : s.names.lookup i with
  | some name =>
    refine .pure ?_
    simp only [standing, unnamed]
  | none =>
    cases branch : singleBranch (node g i) with
    | some b =>
      refine (advance.typeRef _ _ _).imp fun t s' later stands => ?_
      refine standing_of_unnamedType later.grown unnamed ?_
      simpa only [unnamedType, branch] using stands
    | none =>
      -- A type that is found without naming the node is read off the names that there are.
      have settled {t : TypeRef} {s' : State} (later : Later g s s')
          (h : unnamedType g (standing g s'.names budget) i = some t) :
          standing g s'.names (budget + 1) i = some t :=
        standing_of_unnamedType later.grown unnamed h
      cases kind : (node g i).kind with
      | ref =>
        refine .lift_bind fun j target => ?_
        refine (advance.typeRef _ _ _).imp fun t s' later stands => settled later ?_
        simpa only [unnamedType, branch, kind, refTarget_ok target, Option.bind_some] using stands
      | primitive p => exact .pure (settled .refl (by simp only [unnamedType, branch, kind]))
      | any => exact .pure (settled .refl (by simp only [unnamedType, branch, kind]))
      | constant =>
        refine .lift_bind fun l literal => .pure (settled .refl ?_)
        simp only [unnamedType, branch, kind, literal]
        rfl
      | enumeration =>
        simp only
        split
        · next one =>
          refine .lift_bind fun values literals => ?_
          obtain ⟨values, descriptions⟩ := values
          cases values with
          | nil => exact absurd rfl (enumOf_ne_nil one literals)
          | cons l more =>
            refine .pure (settled .refl ?_)
            simp only [unnamedType, branch, kind, if_pos one, literals]
            rfl
        · next several =>
          exact hoist_advances advance unnamed (by simp [hoists, branch, kind, several])
      | array =>
        refine (advance.itemsRef _ _ _).bind fun t s' later stands => .pure (settled ?_ ?_)
        · exact later
        · simp only [unnamedType, branch, kind, stands, Option.map_some]
      | object =>
        simp only
        split
        · next bare =>
          cases additional : (node g i).additional with
          | some j =>
            refine (advance.typeRef _ _ _).bind fun t s' later stands => .pure (settled later ?_)
            simp only [unnamedType, branch, kind, if_pos bare, additional, childType, stands,
              Option.map_some]
          | none =>
            refine .pure (settled .refl ?_)
            simp only [unnamedType, branch, kind, if_pos bare, additional, childType,
              Option.map_some]
        · next declared =>
          exact hoist_advances advance unnamed (by simpa [hoists, branch, kind] using declared)
      | composition => exact hoist_advances advance unnamed (by simp [hoists, branch, kind])

theorem compileNamed_advances {i : Nat} {name : String} {s : State} (owner : (i, name) ∈ s.names) :
    Advances g (compileNamed g (budget + 1) i name) s fun _ _ => True := by
  rw [compileNamed]
  dsimp only
  cases kind : (node g i).kind with
  | ref =>
    refine .lift_bind fun j _ => ?_
    refine (advance.typeRef _ _ _).map_map_bind fun t s₁ later _ => ?_
    exact enter_advances owner later _
  | composition =>
    simp only
    split
    · refine (advance.typeRef _ _ _).map_map_bind fun t s₁ later _ => ?_
      exact enter_advances owner later _
    · split
      · split
        · exact .fail_bind _ _
        · refine (advance.collectFields _ _ _ _ _ _).bind fun m s₁ later _ => ?_
          exact enter_advances owner later _
      · exact (advance.deferUnion owner).bind fun _ _ _ _ => .pure trivial
  | object =>
    simp only
    split
    · refine ((advance.typeRef _ _ _).map _).map_map_bind fun t s₁ later _ => ?_
      exact enter_advances owner later _
    · refine (advance.recordFields _ _ _ _).map_map_bind fun t s₁ later _ => ?_
      exact enter_advances owner later _
  | array =>
    refine (advance.itemsRef _ _ _).map_map_bind fun t s₁ later _ => ?_
    exact enter_advances owner later _
  | enumeration => exact .lift_bind fun values _ => enter_advances owner .refl _
  | constant => exact .lift_bind fun l _ => enter_advances owner .refl _
  | primitive p => exact enter_advances owner .refl _
  | any => exact enter_advances owner .refl _

end Step

/-- Every call advances, by induction on the budget. -/
theorem allAdvance (g : Graph) (budget : Nat) : AllAdvance g budget := by
  induction budget with
  | zero =>
    refine ⟨fun _ => ?_, fun _ _ _ => ?_, fun _ _ _ => ?_, fun _ _ _ _ => ?_,
      fun _ _ _ _ _ _ => ?_, fun _ _ _ _ _ _ => ?_, fun _ _ _ _ _ => ?_, fun _ => ?_,
      fun _ _ _ _ => ?_⟩
    · rw [compileNamed]
      exact .fail _
    · rw [typeRef]
      exact .fail _
    · rw [itemsRef]
      exact .fail _
    · rw [recordFields]
      exact .fail _
    · rw [collectFields]
      exact .fail _
    · rw [collectBranches]
      exact .fail _
    · rw [mergeProperties]
      exact .fail _
    · rw [deferUnion]
      exact .fail _
    · rw [branchRefs]
      exact .fail _
  | succ budget ih =>
    exact ⟨compileNamed_advances ih, typeRef_advances ih, itemsRef_advances ih,
      recordFields_advances ih, collectFields_advances ih, collectBranches_advances ih,
      mergeProperties_advances ih, deferUnion_advances ih, branchRefs_advances ih⟩

end TypedArchive.Compile
