import Mathlib.Logic.Relation
import TypedArchive.Proofs.Compile.Progress

/-! The type that stands for a node, read off the names alone. Nodes are named when an entry is
made for them, and what was read once is read ever after: only nodes that had no type before get a
name. -/

namespace TypedArchive.Compile

/-- A node that gets an entry of its own where it stands inside another type. -/
def hoists (n : Node) : Bool :=
  (singleBranch n).isNone && match n.kind with
    | .composition => true
    | .object => !n.properties.isEmpty
    | .enumeration => (n.enumValues.getD []).length != 1
    | _ => false

/-- The type of a child of a node, which may lack the child. -/
def childType (inner : Nat → Option TypeRef) : Option Nat → Option TypeRef
  | some child => inner child
  | none => some .any

/-- The type of a node without a name, given the types of other nodes. -/
def unnamedType (g : Graph) (inner : Nat → Option TypeRef) (i : Nat) : Option TypeRef :=
  let n := node g i
  match singleBranch n with
  | some branch => inner branch
  | none =>
    match n.kind with
    | .ref => (g.refTarget? i).bind inner
    | .primitive p => some (.primitive p)
    | .any => some .any
    | .constant => (constantOf n).toOption.map .literal
    | .enumeration =>
      if (n.enumValues.getD []).length = 1 then
        (enumOf n).toOption.bind fun values => values.1.head?.map .literal
      else none
    | .array => (childType inner n.items).map .array
    | .object => if n.properties.isEmpty then (childType inner n.additional).map .map else none
    | .composition => none

/-- The type of a node by the names that are given; none if it needs an entry and has none. -/
def standing (g : Graph) (names : Names) : (fuel : Nat) → Nat → Option TypeRef
  | 0, _ => none
  | fuel + 1, i =>
    match names.lookup i with
    | some name => some (.named name)
    | none => unnamedType g (standing g names fuel) i

section Standing

variable {g : Graph} {i : Nat} {t : TypeRef}

theorem childType_mono {inner inner' : Nat → Option TypeRef} {child : Option Nat}
    (sub : ∀ j t, inner j = some t → inner' j = some t) (h : childType inner child = some t) :
    childType inner' child = some t := by
  cases child with
  | some j => exact sub j t h
  | none => exact h

theorem unnamedType_mono {inner inner' : Nat → Option TypeRef}
    (sub : ∀ j t, inner j = some t → inner' j = some t) (h : unnamedType g inner i = some t) :
    unnamedType g inner' i = some t := by
  unfold unnamedType at h ⊢
  dsimp only at h ⊢
  cases branch : singleBranch (node g i) with
  | some b =>
    simp only [branch] at h ⊢
    exact sub b t h
  | none =>
    simp only [branch] at h ⊢
    cases kind : (node g i).kind with
    | ref =>
      simp only [kind] at h ⊢
      obtain ⟨j, target, h⟩ := Option.bind_eq_some_iff.mp h
      exact Option.bind_eq_some_iff.mpr ⟨j, target, sub j t h⟩
    | array =>
      simp only [kind] at h ⊢
      obtain ⟨element, inside, rfl⟩ := Option.map_eq_some_iff.mp h
      rw [childType_mono sub inside, Option.map_some]
    | object =>
      simp only [kind] at h ⊢
      split at h
      · next bare =>
        obtain ⟨value, inside, rfl⟩ := Option.map_eq_some_iff.mp h
        rw [if_pos bare, childType_mono sub inside, Option.map_some]
      · cases h
    | primitive p | any | constant | enumeration | composition =>
      simp only [kind] at h ⊢
      exact h

/-- A node that needs an entry has no type without a name. -/
theorem unnamedType_of_hoists {inner : Nat → Option TypeRef} (h : hoists (node g i) = true) :
    unnamedType g inner i = none := by
  rw [hoists, Bool.and_eq_true, Option.isNone_iff_eq_none] at h
  obtain ⟨branch, needs⟩ := h
  unfold unnamedType
  simp only [branch]
  cases kind : (node g i).kind with
  | composition => rfl
  | object =>
    simp only [kind] at needs ⊢
    rw [if_neg (by simpa using needs)]
  | enumeration =>
    simp only [kind] at needs ⊢
    rw [if_neg (by simpa using needs)]
  | _ =>
    rw [kind] at needs
    cases needs

/-- Names are kept, and new ones go to nodes that need an entry. -/
structure Grown (g : Graph) (names names' : Names) : Prop where
  kept : ∀ i name, names.lookup i = some name → names'.lookup i = some name
  fresh : ∀ i name, names.lookup i = none → names'.lookup i = some name →
    hoists (node g i) = true

theorem Grown.refl (g : Graph) (names : Names) : Grown g names names where
  kept _ _ found := found
  fresh i name absent found := by
    rw [absent] at found
    cases found

theorem Grown.trans {names names₁ names' : Names} (h : Grown g names names₁)
    (h' : Grown g names₁ names') : Grown g names names' where
  kept i name found := h'.kept i name (h.kept i name found)
  fresh i name absent found := by
    cases first : names₁.lookup i with
    | none => exact h'.fresh i name first found
    | some name₁ => exact h.fresh i name₁ absent first

/-- With more names, and more fuel, a node keeps the type that it has. -/
theorem standing_mono {names names' : Names} (grown : Grown g names names') {fuel fuel' : Nat}
    (le : fuel ≤ fuel') (h : standing g names fuel i = some t) :
    standing g names' fuel' i = some t := by
  induction fuel generalizing fuel' i t with
  | zero => cases h
  | succ fuel ih =>
    cases fuel' with
    | zero => omega
    | succ fuel' =>
      have le : fuel ≤ fuel' := by omega
      rw [standing] at h ⊢
      cases owned : names.lookup i with
      | some name =>
        simp only [owned] at h
        simp only [grown.kept i name owned]
        exact h
      | none =>
        simp only [owned] at h
        cases later : names'.lookup i with
        | none => exact unnamedType_mono (fun j t => ih le) h
        | some name =>
          rw [unnamedType_of_hoists (grown.fresh i name owned later)] at h
          cases h

theorem standing_unique {names : Names} {fuel fuel' : Nat} {t' : TypeRef}
    (h : standing g names fuel i = some t) (h' : standing g names fuel' i = some t') : t = t' := by
  have more := standing_mono (Grown.refl g names) (Nat.le_add_right fuel fuel') h
  have more' := standing_mono (Grown.refl g names) (Nat.le_add_left fuel' fuel) h'
  exact Option.some.inj (more.symm.trans more')

end Standing

/-- What compilation does to its state at once: it names a node that needs an entry, makes the entry
of a named node, or queues the union of one. -/
inductive Step (g : Graph) : State → State → Prop
  | own {s : State} {i : Nat} (hint : String) (unnamed : s.names.lookup i = none)
      (needs : hoists (node g i) = true) :
      Step g s (s.own i (TypeName.firstFree s.taken (TypeName.sanitize hint)))
  | enter {s : State} {i : Nat} {e : Entry} (owner : (i, e.name) ∈ s.names)
      (origin : e.origin = (node g i).id) : Step g s (s.enter e)
  | queue {s : State} {u : PendingUnion} (owner : (u.node, u.name) ∈ s.names) :
      Step g s (s.queue u)

/-- What the state may have become later in a compilation, whatever was compiled in between. -/
abbrev Later (g : Graph) : State → State → Prop := Relation.ReflTransGen (Step g)

section Later

variable {g : Graph} {s s' : State}

theorem Step.grown (h : Step g s s') : Grown g s.names s'.names := by
  cases h with
  | @own i hint unnamed needs =>
    refine ⟨fun j name found => ?_, fun j name absent found => ?_⟩
    · have ne : (j == i) = false := by
        rw [beq_eq_false_iff_ne]
        rintro rfl
        rw [unnamed] at found
        cases found
      simpa [State.own, List.lookup_cons, ne] using found
    · cases same : j == i with
      | true => exact beq_iff_eq.mp same ▸ needs
      | false =>
        have found : s.names.lookup j = some name := by
          simpa [State.own, List.lookup_cons, same] using found
        rw [absent] at found
        cases found
  | enter | queue => exact .refl g s.names

theorem Step.subset (h : Step g s s') : s.names ⊆ s'.names := by
  cases h with
  | own => exact List.subset_cons_self _ _
  | enter | queue => exact List.Subset.refl _

theorem Later.grown (h : Later g s s') : Grown g s.names s'.names := by
  induction h with
  | refl => exact .refl g s.names
  | tail _ step ih => exact ih.trans step.grown

theorem Later.subset (h : Later g s s') : s.names ⊆ s'.names := by
  induction h with
  | refl => exact List.Subset.refl _
  | tail _ step ih => exact List.Subset.trans ih step.subset

end Later

end TypedArchive.Compile
