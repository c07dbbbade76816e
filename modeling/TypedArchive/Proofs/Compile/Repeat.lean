import TypedArchive.Proofs.Compile.Resolves

/-! Doing what was done before. A node whose type stands is found to have that type without a
change to the state, and a part of an `allOf` that has been merged adds nothing and conflicts with
nothing. -/

namespace TypedArchive.Compile

/-- A run that leaves the state as it is and whose result is as told, if it does not end at a
circle. -/
def Repeats {α : Type} (x : Build α) (s : State) (post : α → Prop) : Prop :=
  (∃ a, x s = .ok (a, s) ∧ post a) ∨ ∃ node path, x s = .error (.circularReference node path)

section Repeats

variable {α β : Type} {s : State} {post : α → Prop} {post' : β → Prop}

theorem Repeats.pure {a : α} (holds : post a) : Repeats (pure a) s post := Or.inl ⟨a, rfl, holds⟩

theorem Repeats.circular (node : String) (path : List String) :
    Repeats (fail (.circularReference node path)) s post := Or.inr ⟨node, path, rfl⟩

theorem Repeats.bind {x : Build α} {f : α → Build β} (hx : Repeats x s post)
    (hf : ∀ a, post a → Repeats (f a) s post') : Repeats (x >>= f) s post' := by
  unfold Repeats
  change (∃ b, (x s >>= fun p => f p.1 p.2) = .ok (b, s) ∧ post' b) ∨
    ∃ node path, (x s >>= fun p => f p.1 p.2) = .error (.circularReference node path)
  rcases hx with ⟨a, run, holds⟩ | ⟨node, path, run⟩
  · rw [run]
    exact hf a holds
  · rw [run]
    exact Or.inr ⟨node, path, rfl⟩

theorem Repeats.lift_bind {x : Except SchemaError α} {f : α → Build β} {a : α} (ok : x = .ok a)
    (hf : Repeats (f a) s post') : Repeats (liftM x >>= f) s post' := by
  subst ok
  exact hf

theorem Repeats.circular_bind (node : String) (path : List String) (f : α → Build β) :
    Repeats (fail (.circularReference node path) >>= f) s post' :=
  Repeats.circular (α := β) node path

theorem Repeats.get_bind {f : State → Build α} (h : Repeats (f s) s post) :
    Repeats (get >>= f) s post := h

theorem Repeats.imp {x : Build α} {weaker : α → Prop} (hx : Repeats x s post)
    (weaken : ∀ a, post a → weaker a) : Repeats x s weaker := by
  rcases hx with ⟨a, run, holds⟩ | circle
  · exact Or.inl ⟨a, run, weaken a holds⟩
  · exact Or.inr circle

end Repeats

/-- The calls that repeat what was done before, within a budget. -/
structure AllRepeat (g : Graph) (budget : Nat) : Prop where
  typeRef : ∀ {s fuel i t} hint, standing g s.names fuel i = some t →
    Repeats (typeRef g budget i hint) s (· = t)
  itemsRef : ∀ {s fuel} {n : Node} {t} owner,
    childType (standing g s.names fuel) n.items = some t →
      Repeats (itemsRef g budget n owner) s (· = t)
  mergeProperties : ∀ {s m properties} root owner,
    (∀ p ∈ properties, PropertyAbsorbed g s.names m p) →
      Repeats (mergeProperties g budget root owner properties m) s m.Same
  collectFields : ∀ {s m i} root owner visiting,
    (∀ j, Part g i j → Absorbed g s.names m j) →
      Repeats (collectFields g budget root i owner visiting m) s m.Same
  collectBranches : ∀ {s m branches} root owner visiting,
    (∀ b ∈ branches, ∀ j, Part g b j → Absorbed g s.names m j) →
      Repeats (collectBranches g budget root branches owner visiting m) s m.Same

section Step

variable {g : Graph} {budget : Nat} (repeats : AllRepeat g budget) {s : State}

include repeats

theorem itemsRef_repeats {fuel : Nat} {n : Node} {t : TypeRef} (owner : String)
    (stands : childType (standing g s.names fuel) n.items = some t) :
    Repeats (itemsRef g (budget + 1) n owner) s (· = t) := by
  rw [itemsRef]
  cases items : n.items with
  | some j =>
    rw [items] at stands
    exact repeats.typeRef _ stands
  | none =>
    rw [items] at stands
    exact .pure (Option.some.inj stands)

theorem typeRef_repeats {fuel i : Nat} {t : TypeRef} (hint : String)
    (stands : standing g s.names fuel i = some t) :
    Repeats (typeRef g (budget + 1) i hint) s (· = t) := by
  cases fuel with
  | zero => cases stands
  | succ fuel =>
    rw [standing] at stands
    rw [typeRef]
    refine .get_bind ?_
    dsimp only
    cases owned : s.names.lookup i with
    | some name =>
      simp only [owned] at stands
      exact .pure (Option.some.inj stands)
    | none =>
      simp only [owned] at stands
      unfold unnamedType at stands
      cases branch : singleBranch (node g i) with
      | some b =>
        simp only [branch] at stands
        exact repeats.typeRef _ stands
      | none =>
        simp only [branch] at stands
        cases kind : (node g i).kind with
        | ref =>
          simp only [kind] at stands
          obtain ⟨j, leads, stands⟩ := Option.bind_eq_some_iff.mp stands
          have target : refTarget g i = .ok j := by rw [refTarget, leads]
          exact .lift_bind target (repeats.typeRef _ stands)
        | primitive p | any =>
          simp only [kind] at stands
          exact .pure (Option.some.inj stands)
        | constant =>
          simp only [kind] at stands
          obtain ⟨l, read, rfl⟩ := Option.map_eq_some_iff.mp stands
          exact .lift_bind (Outcome.toOption_eq_some.mp read) (.pure rfl)
        | enumeration =>
          simp only [kind] at stands ⊢
          split at stands
          · next one =>
            obtain ⟨⟨values, descriptions⟩, read, first⟩ := Option.bind_eq_some_iff.mp stands
            rw [if_pos one]
            refine .lift_bind (Outcome.toOption_eq_some.mp read) ?_
            cases values with
            | nil => cases first
            | cons l more => exact .pure (Option.some.inj first)
          · cases stands
        | array =>
          simp only [kind] at stands
          obtain ⟨element, inside, rfl⟩ := Option.map_eq_some_iff.mp stands
          refine (repeats.itemsRef _ inside).bind fun t' same => .pure ?_
          rw [same]
        | object =>
          simp only [kind] at stands ⊢
          split at stands
          · next bare =>
            obtain ⟨value, inside, rfl⟩ := Option.map_eq_some_iff.mp stands
            rw [if_pos bare]
            cases additional : (node g i).additional with
            | some j =>
              rw [additional] at inside
              refine (repeats.typeRef _ inside).bind fun t' same => .pure ?_
              rw [same]
            | none =>
              rw [additional] at inside
              cases inside
              exact .pure rfl
          · cases stands
        | composition =>
          simp only [kind] at stands
          cases stands

theorem mergeProperties_repeats {m : Merged} {properties : Assoc Nat} (root owner : String)
    (absorbed : ∀ p ∈ properties, PropertyAbsorbed g s.names m p) :
    Repeats (mergeProperties g (budget + 1) root owner properties m) s m.Same := by
  cases properties with
  | nil =>
    rw [mergeProperties]
    swap; exact Nat.succ_ne_zero _
    exact .pure (.refl m)
  | cons p rest =>
    obtain ⟨⟨fuel, t, stands, absorbs⟩, others⟩ := List.forall_mem_cons.mp absorbed
    obtain ⟨m₁, added, same⟩ := Merged.add_of_absorbs root absorbs
    rw [mergeProperties]
    refine (repeats.typeRef _ stands).bind fun t' eq => ?_
    subst eq
    refine .lift_bind added ((repeats.mergeProperties _ _ fun p mem => ?_).imp fun m' => same.trans)
    exact (others p mem).mono (.refl g _) same.narrows

theorem collectBranches_repeats {m : Merged} {branches : List Nat} (root owner : String)
    (visiting : List Nat) (absorbed : ∀ b ∈ branches, ∀ j, Part g b j → Absorbed g s.names m j) :
    Repeats (collectBranches g (budget + 1) root branches owner visiting m) s m.Same := by
  cases branches with
  | nil =>
    rw [collectBranches]
    swap; exact Nat.succ_ne_zero _
    exact .pure (.refl m)
  | cons b rest =>
    obtain ⟨first, others⟩ := List.forall_mem_cons.mp absorbed
    rw [collectBranches]
    refine (repeats.collectFields _ _ _ first).bind fun m₁ same => ?_
    refine (repeats.collectBranches _ _ _ fun b mem j part => ?_).imp fun m' => same.trans
    exact (others b mem j part).mono (.refl g _) same.narrows

theorem collectFields_repeats (loaded : g.Loaded) {m : Merged} {i : Nat} (root owner : String)
    (visiting : List Nat) (absorbed : ∀ j, Part g i j → Absorbed g s.names m j) :
    Repeats (collectFields g (budget + 1) root i owner visiting m) s m.Same := by
  rw [collectFields]
  dsimp only
  split
  · exact .circular_bind _ _ _
  have own := absorbed i .self
  have start := Merged.Same.require own.required
  have absorbed (j) (part : Part g i j) : Absorbed g s.names
      { m with required := m.required ++ (node g i).required } j :=
    (absorbed j part).mono (.refl g _) start.narrows
  have mergeable := own.mergeable
  unfold Mergeable at mergeable
  cases kind : (node g i).kind with
  | ref =>
    obtain ⟨j, target⟩ := refTarget_ok_of_linked loaded kind
    have parts (k) (part : Part g j k) := absorbed k (.ref kind (refTarget_ok target) part)
    exact .lift_bind target ((repeats.collectFields _ _ _ parts).imp fun m' => start.trans)
  | composition =>
    simp only [kind] at mergeable ⊢
    rw [if_neg (by simp [mergeable])]
    have properties (p) (mem : p ∈ (node g i).properties) :=
      (absorbed i .self).properties p (by simpa only [partProperties, kind] using mem)
    refine (repeats.mergeProperties _ _ properties).bind fun m₁ same => ?_
    have parts (b) (mem : b ∈ (node g i).allOf) (k) (part : Part g b k) :=
      (absorbed k (.branch kind mem part)).mono (.refl g s.names) same.narrows
    exact (repeats.collectBranches _ _ _ parts).imp fun m' same' => start.trans (same.trans same')
  | object =>
    have properties (p) (mem : p ∈ (node g i).properties) :=
      (absorbed i .self).properties p (by simpa only [partProperties, kind] using mem)
    exact (repeats.mergeProperties _ _ properties).imp fun m' => start.trans
  | any => exact .pure start
  | _ => simp only [kind] at mergeable

end Step

theorem allRepeat {g : Graph} (loaded : g.Loaded) (budget : Nat) : AllRepeat g budget := by
  induction budget with
  | zero =>
    refine ⟨fun _ _ => ?_, fun _ _ => ?_, fun _ _ _ => ?_, fun _ _ _ _ => ?_, fun _ _ _ _ => ?_⟩
    · rw [typeRef]
      exact .circular _ _
    · rw [itemsRef]
      exact .circular _ _
    · rw [mergeProperties]
      exact .circular _ _
    · rw [collectFields]
      exact .circular _ _
    · rw [collectBranches]
      exact .circular _ _
  | succ budget ih =>
    exact ⟨typeRef_repeats ih, itemsRef_repeats ih, mergeProperties_repeats ih,
      collectFields_repeats ih loaded, collectBranches_repeats ih⟩

end TypedArchive.Compile
