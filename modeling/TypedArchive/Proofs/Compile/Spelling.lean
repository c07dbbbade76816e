import TypedArchive.Proofs.Compile.Union
import TypedArchive.Proofs.Text.Casing

/-! How the names of entries are spelled: as words run together. Underscores join words in field
names only; no hint and no suffix of the compiler has one. -/

namespace TypedArchive

namespace TypeName

/-- A text without underscores. -/
def Unbroken (text : String) : Prop := '_' ∉ text.toList

instance (text : String) : Decidable (Unbroken text) := inferInstanceAs (Decidable (¬_))

/-- An identifier that is made of letters and digits only. -/
structure IsWord (name : String) : Prop extends IsIdentifier name where
  unbroken : Unbroken name

theorem Unbroken.append {a b : String} (ha : Unbroken a) (hb : Unbroken b) :
    Unbroken (a ++ b) := by
  rw [Unbroken, String.toList_append, List.mem_append]
  exact fun mem => mem.elim ha hb

theorem Unbroken.append_toString {a : String} (ha : Unbroken a) (n : Nat) :
    Unbroken (a ++ toString n) :=
  ha.append fun mem => absurd (Text.isDigit_of_mem_toString mem) (by decide)

theorem unbroken_pascalCase (s : String) : Unbroken (Text.pascalCase s) :=
  fun mem => (Text.wordlike_of_mem_pascalCase mem).ne_underscore rfl

theorem Unbroken.sanitize {hint : String} (h : Unbroken hint) : Unbroken (sanitize hint) := by
  rw [TypeName.sanitize]
  split
  · decide
  · next c rest kept =>
    have unbroken : Unbroken (String.ofList (c :: rest)) := by
      rw [Unbroken, String.toList_ofList, ← kept]
      exact fun mem => h (List.mem_of_mem_filter mem)
    dsimp only
    split
    · exact Unbroken.append (a := "T") (by decide) unbroken
    · split
      · decide
      · exact unbroken

theorem isWord_sanitize {hint : String} (h : Unbroken hint) : IsWord (sanitize hint) :=
  { sanitize_isIdentifier hint with unbroken := h.sanitize }

theorem isWord_preferred (n : Node) : IsWord (preferred n) := by
  rw [preferred]
  exact isWord_sanitize (unbroken_pascalCase _)

theorem IsWord.firstFree {base : String} (h : IsWord base) (taken : List String) :
    IsWord (firstFree taken base) := by
  refine { firstFree_isIdentifier taken h.toIsIdentifier with unbroken := ?_ }
  rw [TypeName.firstFree]
  split
  · obtain ⟨k, eq⟩ := numbered_eq taken base taken.length 2
    rw [eq]
    exact h.unbroken.append_toString k
  · exact h.unbroken

end TypeName

namespace Compile

open TypedArchive.TypeName

/-- All names that have been given out are words. -/
def State.Spelled (s : State) : Prop := ∀ p ∈ s.names, IsWord p.2

/-- A successful run gives out words only, and something holds of its result. -/
def Spells {α : Type} (x : Build α) (post : α → Prop) : Prop :=
  ∀ ⦃s a s'⦄, x s = .ok (a, s') → s.Spelled → s'.Spelled ∧ post a

section Spells

variable {α β : Type} {post : α → Prop} {post' : β → Prop}

theorem Spells.pure {a : α} (holds : post a) : Spells (pure a) post := by
  intro s a' s' h spelled
  cases h
  exact ⟨spelled, holds⟩

theorem Spells.fail (e : SchemaError) : Spells (fail e) post :=
  fun _ _ _ h => absurd h Outcome.throw_run_ne_ok

theorem Spells.bind {x : Build α} {f : α → Build β} (hx : Spells x post)
    (hf : ∀ a, post a → Spells (f a) post') : Spells (x >>= f) post' := by
  intro s b s' h spelled
  obtain ⟨a, s₁, run, h⟩ := Outcome.bind_run_eq_ok.mp h
  obtain ⟨spelled, holds⟩ := hx run spelled
  exact hf a holds h spelled

theorem Spells.lift_bind {x : Except SchemaError α} {f : α → Build β}
    (hf : ∀ a, Spells (f a) post') : Spells (liftM x >>= f) post' := by
  intro s b s' h
  obtain ⟨a, s₁, run, h⟩ := Outcome.bind_run_eq_ok.mp h
  obtain ⟨-, rfl⟩ := Outcome.lift_run_eq_ok.mp run
  exact hf a h

theorem Spells.get_bind {f : State → Build β} (hf : ∀ s, Spells (f s) post') :
    Spells (get >>= f) post' :=
  fun s _ _ h => hf s h

theorem Spells.fail_bind (e : SchemaError) (f : α → Build β) :
    Spells (Compile.fail e >>= f) post' :=
  Spells.fail (α := β) e

theorem Spells.map {x : Build α} {f : α → β} (hx : Spells x fun _ => True) :
    Spells (f <$> x) fun _ => True := by
  intro s b s' h spelled
  obtain ⟨a, run, rfl⟩ := Outcome.map_run_eq_ok.mp h
  exact hx run spelled

theorem Spells.map_map_bind {γ δ : Type} {x : Build α} {f : α → β} {f' : β → γ} {k : γ → Build δ}
    {post' : δ → Prop} (hx : Spells x post) (hk : ∀ a, post a → Spells (k (f' (f a))) post') :
    Spells ((f' <$> f <$> x) >>= k) post' := by
  rw [bind_map_left, bind_map_left]
  exact hx.bind hk

/-- A step that gives out no name. -/
theorem Spells.modify {f : State → State} (same : ∀ s, (f s).names = s.names) :
    Spells (modify f : Build Unit) fun _ => True := by
  intro s u s' h spelled
  cases h
  exact ⟨fun p mem => spelled p (same s ▸ mem), trivial⟩

end Spells

theorem reserveName_spells (i : Nat) {base : String} (word : IsWord base) :
    Spells (reserveName i base) IsWord := by
  intro s name s' h spelled
  rw [reserveName_run] at h
  cases h
  have given := word.firstFree s.taken
  exact ⟨List.forall_mem_cons.mpr ⟨given, spelled⟩, given⟩

/-- What each call gives out within a budget, for hints without underscores. -/
structure AllSpell (g : Graph) (budget : Nat) : Prop where
  compileNamed : ∀ i {name}, Unbroken name → Spells (compileNamed g budget i name) fun _ => True
  typeRef : ∀ i {hint}, Unbroken hint → Spells (typeRef g budget i hint) fun _ => True
  itemsRef : ∀ n {owner}, Unbroken owner → Spells (itemsRef g budget n owner) fun _ => True
  recordFields : ∀ n {owner} properties, Unbroken owner →
    Spells (recordFields g budget n owner properties) fun _ => True
  collectFields : ∀ root i {owner} visiting m, Unbroken owner →
    Spells (collectFields g budget root i owner visiting m) fun _ => True
  collectBranches : ∀ root branches {owner} visiting m, Unbroken owner →
    Spells (collectBranches g budget root branches owner visiting m) fun _ => True
  mergeProperties : ∀ root {owner} properties m, Unbroken owner →
    Spells (mergeProperties g budget root owner properties m) fun _ => True
  deferUnion : ∀ i {name}, Unbroken name → Spells (deferUnion g budget i name) fun _ => True
  branchRefs : ∀ {name} place branches, Unbroken name →
    Spells (branchRefs g budget name place branches) fun _ => True

section Step

variable {g : Graph} {budget : Nat} (spell : AllSpell g budget)

include spell

theorem itemsRef_spells (n : Node) {owner : String} (h : Unbroken owner) :
    Spells (itemsRef g (budget + 1) n owner) fun _ => True := by
  rw [itemsRef]
  cases n.items with
  | some j => exact spell.typeRef _ (h.append (b := "Item") (by decide))
  | none => exact .pure trivial

theorem recordFields_spells (n : Node) {owner : String} (properties : Assoc Nat)
    (h : Unbroken owner) :
    Spells (recordFields g (budget + 1) n owner properties) fun _ => True := by
  cases properties with
  | nil =>
    rw [recordFields]
    swap; exact Nat.succ_ne_zero _
    exact .pure trivial
  | cons p rest =>
    rw [recordFields]
    refine (spell.typeRef _ (h.append (unbroken_pascalCase _))).bind fun _ _ => ?_
    exact (spell.recordFields _ _ h).bind fun _ _ => .pure trivial

theorem mergeProperties_spells (root : String) {owner : String} (properties : Assoc Nat)
    (m : Merged) (h : Unbroken owner) :
    Spells (mergeProperties g (budget + 1) root owner properties m) fun _ => True := by
  cases properties with
  | nil =>
    rw [mergeProperties]
    swap; exact Nat.succ_ne_zero _
    exact .pure trivial
  | cons p rest =>
    rw [mergeProperties]
    refine (spell.typeRef _ (h.append (unbroken_pascalCase _))).bind fun _ _ => ?_
    exact .lift_bind fun _ => spell.mergeProperties _ _ _ h

theorem branchRefs_spells {name : String} (place : Nat) (branches : List Nat)
    (h : Unbroken name) : Spells (branchRefs g (budget + 1) name place branches) fun _ => True := by
  cases branches with
  | nil =>
    rw [branchRefs]
    swap; exact Nat.succ_ne_zero _
    exact .pure trivial
  | cons b rest =>
    rw [branchRefs]
    refine (spell.typeRef _ ?_).bind fun _ _ => ?_
    · split
      · exact unbroken_pascalCase _
      · exact (h.append (b := "Variant") (by decide)).append_toString place
    · exact (spell.branchRefs _ _ h).bind fun _ _ => .pure trivial

theorem deferUnion_spells (i : Nat) {name : String} (h : Unbroken name) :
    Spells (deferUnion g (budget + 1) i name) fun _ => True := by
  rw [deferUnion]
  exact (spell.branchRefs _ _ h).bind fun _ _ => .modify fun _ => rfl

theorem collectBranches_spells (root : String) (branches : List Nat) {owner : String}
    (visiting : List Nat) (m : Merged) (h : Unbroken owner) :
    Spells (collectBranches g (budget + 1) root branches owner visiting m) fun _ => True := by
  cases branches with
  | nil =>
    rw [collectBranches]
    swap; exact Nat.succ_ne_zero _
    exact .pure trivial
  | cons b rest =>
    rw [collectBranches]
    exact (spell.collectFields _ _ _ _ h).bind fun _ _ => spell.collectBranches _ _ _ _ h

theorem collectFields_spells (root : String) (i : Nat) {owner : String} (visiting : List Nat)
    (m : Merged) (h : Unbroken owner) :
    Spells (collectFields g (budget + 1) root i owner visiting m) fun _ => True := by
  rw [collectFields]
  dsimp only
  split
  · exact .fail_bind _ _
  cases (node g i).kind with
  | ref => exact .lift_bind fun j => spell.collectFields _ _ _ _ h
  | composition =>
    simp only
    split
    · exact .fail_bind _ _
    · exact (spell.mergeProperties _ _ _ h).bind fun _ _ => spell.collectBranches _ _ _ _ h
  | object => exact spell.mergeProperties _ _ _ h
  | any => exact .pure trivial
  | _ => exact .fail _

theorem hoist_spells (i : Nat) {hint : String} (h : Unbroken hint) :
    Spells (do
      let name ← reserveName i (sanitize hint)
      compileNamed g budget i name
      return .named name : Build TypeRef) fun _ => True :=
  (reserveName_spells i (isWord_sanitize h)).bind fun _ word =>
    (spell.compileNamed i word.unbroken).bind fun _ _ => .pure trivial

theorem typeRef_spells (i : Nat) {hint : String} (h : Unbroken hint) :
    Spells (typeRef g (budget + 1) i hint) fun _ => True := by
  rw [typeRef]
  refine .get_bind fun s => ?_
  split
  · exact .pure trivial
  · dsimp only
    split
    · exact spell.typeRef _ h
    · cases (node g i).kind with
      | ref => exact .lift_bind fun j => spell.typeRef _ h
      | primitive p => exact .pure trivial
      | any => exact .pure trivial
      | constant => exact .lift_bind fun _ => .pure trivial
      | enumeration =>
        simp only
        split
        · refine .lift_bind fun values => ?_
          split
          · exact .pure trivial
          · exact hoist_spells spell i h
        · exact hoist_spells spell i h
      | array => exact (spell.itemsRef _ h).bind fun _ _ => .pure trivial
      | object =>
        simp only
        split
        · split
          · have value := h.append (b := "Value") (by decide)
            exact (spell.typeRef _ value).bind fun _ _ => .pure trivial
          · exact .pure trivial
        · exact hoist_spells spell i h
      | composition => exact hoist_spells spell i h

theorem compileNamed_spells (i : Nat) {name : String} (h : Unbroken name) :
    Spells (compileNamed g (budget + 1) i name) fun _ => True := by
  rw [compileNamed]
  dsimp only
  -- The entry, if there is one, is made without a further name.
  cases (node g i).kind with
  | ref =>
    exact .lift_bind fun j => (spell.typeRef _ h).map_map_bind fun _ _ => .modify fun _ => rfl
  | composition =>
    simp only
    split
    · exact (spell.typeRef _ h).map_map_bind fun _ _ => .modify fun _ => rfl
    · split
      · split
        · exact .fail_bind _ _
        · exact (spell.collectFields _ _ _ _ h).bind fun _ _ => .modify fun _ => rfl
      · exact (spell.deferUnion _ h).bind fun _ _ => .pure trivial
  | object =>
    simp only
    split
    · have value := h.append (b := "Value") (by decide)
      exact (spell.typeRef _ value).map.map_map_bind fun _ _ => .modify fun _ => rfl
    · exact (spell.recordFields _ _ h).map_map_bind fun _ _ => .modify fun _ => rfl
  | array => exact (spell.itemsRef _ h).map_map_bind fun _ _ => .modify fun _ => rfl
  | enumeration => exact .lift_bind fun _ => .modify fun _ => rfl
  | constant => exact .lift_bind fun _ => .modify fun _ => rfl
  | primitive p => exact .modify fun _ => rfl
  | any => exact .modify fun _ => rfl

end Step

/-- Every call gives out words, by induction on the budget. -/
theorem allSpell (g : Graph) (budget : Nat) : AllSpell g budget := by
  induction budget with
  | zero =>
    refine ⟨fun _ _ _ => ?_, fun _ _ _ => ?_, fun _ _ _ => ?_, fun _ _ _ _ => ?_,
      fun _ _ _ _ _ _ => ?_, fun _ _ _ _ _ _ => ?_, fun _ _ _ _ _ => ?_, fun _ _ _ => ?_,
      fun _ _ _ => ?_⟩
    · rw [compileNamed]
      exact .fail _
    · rw [typeRef]
      exact .fail _
    · rw [itemsRef]
      exact .fail _
    · rw [recordFields]
      exact .fail _
    · rw [collectFields]
      exact .fail _
    · rw [collectBranches]
      exact .fail _
    · rw [mergeProperties]
      exact .fail _
    · rw [deferUnion]
      exact .fail _
    · rw [branchRefs]
      exact .fail _
  | succ budget ih =>
    exact ⟨compileNamed_spells ih, typeRef_spells ih, itemsRef_spells ih, recordFields_spells ih,
      collectFields_spells ih, collectBranches_spells ih, mergeProperties_spells ih,
      deferUnion_spells ih, branchRefs_spells ih⟩

theorem reserve_spells (g : Graph) (nodes : List Nat) :
    Spells (nodes.mapM fun i => do
      return (i, ← reserveName i (preferred (node g i))) : Build Names) fun names =>
        ∀ p ∈ names, IsWord p.2 := by
  induction nodes with
  | nil =>
    rw [List.mapM_nil]
    exact .pure (List.forall_mem_nil _)
  | cons i nodes ih =>
    rw [List.mapM_cons]
    have first : Spells (do return (i, ← reserveName i (preferred (node g i))) :
        Build (Nat × String)) fun p => IsWord p.2 :=
      (reserveName_spells i (isWord_preferred _)).bind fun _ word => .pure word
    refine first.bind fun p word => ih.bind fun names words => ?_
    exact .pure (List.forall_mem_cons.mpr ⟨word, words⟩)

theorem compileAll_spells (g : Graph) (budget : Nat) {names : Names}
    (words : ∀ p ∈ names, IsWord p.2) :
    Spells (names.forM fun p => compileNamed g budget p.1 p.2) fun _ => True := by
  induction names with
  | nil => exact .pure trivial
  | cons p names ih =>
    rw [List.forall_mem_cons] at words
    rw [List.forM_eq_forM, List.forM_cons]
    exact ((allSpell g budget).compileNamed _ words.1.unbroken).bind fun _ _ => ih words.2

/-- Every name that is given out while a graph is compiled is a word. -/
theorem buildEntries_spelled {g : Graph} {s : State} (h : buildEntries g {} = .ok ((), s)) :
    s.Spelled := by
  have spells : Spells (buildEntries g) fun _ => True := by
    rw [buildEntries]
    exact (reserve_spells g _).bind fun _ words => compileAll_spells g _ words
  exact (spells h (List.forall_mem_nil _)).1

/-- The names of a compiled catalog are words. -/
theorem isWord_of_compile {g : Graph} {c : Catalog} (h : g.compile = .ok c) {name : String}
    (found : c.contains name = true) : IsWord name := by
  rw [Graph.compile] at h
  obtain ⟨⟨u, s⟩, build, h⟩ := Outcome.bind_eq_ok.mp h
  obtain ⟨catalog, finish, h⟩ := Outcome.bind_eq_ok.mp h
  obtain ⟨_, -, eq⟩ := Outcome.bind_eq_ok.mp h
  cases eq
  obtain ⟨inv, reserved⟩ := buildEntries_ok build
  obtain ⟨e, entry⟩ := Assoc.contains_iff_exists.mp found
  obtain ⟨i, owned⟩ := (inv.compiled reserved finish).owned name e entry
  exact buildEntries_spelled build (i, name) owned

end Compile

end TypedArchive
