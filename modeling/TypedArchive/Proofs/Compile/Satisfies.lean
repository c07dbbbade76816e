import TypedArchive.Proofs.Binding.Accepts
import TypedArchive.Proofs.Compile.Rules

/-! Schemas as predicates on values. A reading says what is asked of a value besides the schemas
that stand inside a schema. -/

namespace TypedArchive

/-- Whether a value is of the JSON kind of a primitive. -/
def Primitive.ofKind : Primitive → Json → Bool
  | .any, _ => true
  | .string, .string _ => true
  | .integer, .number n => n.isInteger
  | .number, .number _ => true
  | .boolean, .bool _ => true
  | .null, .null => true
  | _, _ => false

namespace Graph

open Compile (node singleBranch Part partProperties alternatives)

/-- A value, if it is an object, has the keys. -/
def HasKeys (keys : List String) (v : Json) : Prop :=
  ∀ members, v = .object members → ∀ k ∈ keys, Assoc.contains members k = true

/-- What readings of schemas differ in. -/
structure Reading where
  primitive : Primitive → Json → Bool
  /-- Asked of a value beside the target of a reference. -/
  reference : Node → Json → Prop
  /-- Asked of a value beside the branches of a composition. -/
  composition : Graph → Nat → Json → Prop
  /-- Whether the properties written on a composition count. -/
  properties : Node → Prop

/-- A value satisfies a node of the graph. -/
inductive Satisfies (g : Graph) (r : Reading) : Nat → Json → Prop
  | ref {i j : Nat} {v : Json} (kind : (node g i).kind = .ref) (target : g.refTarget? i = some j)
      (beside : r.reference (node g i) v) (h : Satisfies g r j v) : Satisfies g r i v
  | primitive {i : Nat} {p : Primitive} {v : Json} (kind : (node g i).kind = .primitive p)
      (h : r.primitive p v = true) : Satisfies g r i v
  | any {i : Nat} {v : Json} (kind : (node g i).kind = .any) : Satisfies g r i v
  | constant {i : Nat} {v : Json} (kind : (node g i).kind = .constant)
      (h : v = (node g i).constant.getD .null) : Satisfies g r i v
  | enumeration {i : Nat} {v : Json} (kind : (node g i).kind = .enumeration)
      (h : v ∈ (node g i).enumValues.getD []) : Satisfies g r i v
  | array {i : Nat} {items : List Json} (kind : (node g i).kind = .array)
      (each : ∀ j, (node g i).items = some j → ∀ w ∈ items, Satisfies g r j w) :
      Satisfies g r i (.array items)
  | object {i : Nat} {members : List (String × Json)} (kind : (node g i).kind = .object)
      (required : ∀ k ∈ (node g i).required, Assoc.contains members k = true)
      (properties : ∀ p ∈ (node g i).properties, ∀ w, Assoc.get? members p.1 = some w →
        Satisfies g r p.2 w)
      (additional : (node g i).properties = [] → ∀ j, (node g i).additional = some j →
        ∀ p ∈ members, Satisfies g r j p.2) : Satisfies g r i (.object members)
  | composition {i one any : Nat} {v : Json} (kind : (node g i).kind = .composition)
      (all : ∀ b ∈ (node g i).allOf, Satisfies g r b v)
      (oneOf : (node g i).oneOf ≠ [] → one ∈ (node g i).oneOf)
      (oneHolds : (node g i).oneOf ≠ [] → Satisfies g r one v)
      (anyOf : (node g i).anyOf ≠ [] → any ∈ (node g i).anyOf)
      (anyHolds : (node g i).anyOf ≠ [] → Satisfies g r any v)
      (beside : r.composition g i v)
      (properties : r.properties (node g i) → ∀ p ∈ (node g i).properties, ∀ members,
        v = .object members → ∀ w, Assoc.get? members p.1 = some w → Satisfies g r p.2 w) :
      Satisfies g r i v

/-- Every keyword counts, except beside a reference. -/
def Reading.full : Reading where
  primitive := Primitive.ofKind
  reference _ _ := True
  composition g i v := HasKeys (node g i).required v
  properties _ := True

/-- A composition is merged rather than a choice. -/
def Merges (n : Node) : Prop := n.allOf = [] → alternatives n = []

/-- Integers are those of 64 bits. Keys required beside a reference count, and keywords beside the
branches of a composition count when it is merged; unless it only wraps one branch, its values are
objects then. -/
def Reading.basic : Reading where
  primitive := Primitive.holds
  reference n v := HasKeys n.required v
  composition g i v := Merges (node g i) → HasKeys (node g i).required v ∧
    (singleBranch (node g i) = none → ∃ members, v = .object members)
  properties := Merges

/-- In a merged composition the keys that branches without a kind require count too. -/
def Reading.sufficient : Reading where
  primitive := Reading.basic.primitive
  reference := Reading.basic.reference
  composition g i v := Reading.basic.composition g i v ∧
    (Merges (node g i) → singleBranch (node g i) = none →
      ∀ j, Part g i j → (node g j).kind = .any → HasKeys (node g j).required v)
  properties := Reading.basic.properties

/-- What the decoder makes of a schema: required keys count where some property declares them, a
composition of one branch is that branch, and a union is its first list of branches. -/
inductive Respects (g : Graph) : Nat → Json → Prop
  | ref {i j : Nat} {v : Json} (kind : (node g i).kind = .ref) (target : g.refTarget? i = some j)
      (h : Respects g j v) : Respects g i v
  | primitive {i : Nat} {p : Primitive} {v : Json} (kind : (node g i).kind = .primitive p)
      (h : p.ofKind v = true) : Respects g i v
  | any {i : Nat} {v : Json} (kind : (node g i).kind = .any) : Respects g i v
  | constant {i : Nat} {v : Json} (kind : (node g i).kind = .constant)
      (h : v = (node g i).constant.getD .null) : Respects g i v
  | enumeration {i : Nat} {v : Json} (kind : (node g i).kind = .enumeration)
      (h : v ∈ (node g i).enumValues.getD []) : Respects g i v
  | array {i : Nat} {items : List Json} (kind : (node g i).kind = .array)
      (each : ∀ j, (node g i).items = some j → ∀ w ∈ items, Respects g j w) :
      Respects g i (.array items)
  | object {i : Nat} {members : List (String × Json)} (kind : (node g i).kind = .object)
      (required : ∀ k ∈ (node g i).required, k ∈ (node g i).properties.keys →
        Assoc.contains members k = true)
      (properties : ∀ p ∈ (node g i).properties, ∀ w, Assoc.get? members p.1 = some w →
        Respects g p.2 w)
      (additional : (node g i).properties = [] → ∀ j, (node g i).additional = some j →
        ∀ p ∈ members, Respects g j p.2) : Respects g i (.object members)
  | wrapper {i b : Nat} {v : Json} (branch : singleBranch (node g i) = some b)
      (h : Respects g b v) : Respects g i v
  | allOf {i : Nat} {members : List (String × Json)} (kind : (node g i).kind = .composition)
      (several : singleBranch (node g i) = none) (allOf : (node g i).allOf ≠ [])
      (required : ∀ j k, Part g i j → k ∈ (node g j).required →
        (∃ j', Part g i j' ∧ k ∈ (partProperties (node g j')).keys) →
        Assoc.contains members k = true)
      (properties : ∀ j p, Part g i j → p ∈ partProperties (node g j) → ∀ w,
        Assoc.get? members p.1 = some w → Respects g p.2 w) : Respects g i (.object members)
  | union {i b : Nat} {v : Json} (kind : (node g i).kind = .composition)
      (several : singleBranch (node g i) = none) (allOf : (node g i).allOf = [])
      (mem : b ∈ alternatives (node g i)) (h : Respects g b v) : Respects g i v

section Passes

variable (g : Graph)

/-- Whether every member whose key is among the properties passes the check for its property. -/
def propertiesPass (pass : Nat → Json → Bool) (properties : Assoc Nat)
    (members : List (String × Json)) : Bool :=
  properties.all fun p => (Assoc.get? members p.1).all (pass p.2)

/-- A check that goes no deeper than a bound; every value that satisfies a node passes it. -/
def passes : (depth : Nat) → Nat → Json → Bool
  | 0, _, _ => true
  | depth + 1, i, v =>
    let n := node g i
    let pass := passes depth
    match n.kind, v with
    | .ref, v => (g.refTarget? i).any fun j => pass j v
    | .primitive p, v => p.ofKind v
    | .any, _ => true
    | .constant, v => v == n.constant.getD .null
    | .enumeration, v => (n.enumValues.getD []).contains v
    | .array, .array items => n.items.all fun j => items.all (pass j)
    | .array, _ => false
    | .object, .object members =>
      (n.required.all fun k => Assoc.contains members k) &&
        propertiesPass pass n.properties members &&
        (!n.properties.isEmpty || n.additional.all fun j => members.all fun p => pass j p.2)
    | .object, _ => false
    | .composition, v =>
      (n.allOf.all fun b => pass b v) && (n.oneOf.isEmpty || n.oneOf.any fun b => pass b v) &&
        (n.anyOf.isEmpty || n.anyOf.any fun b => pass b v) &&
        match v with
        | .object members =>
          (n.required.all fun k => Assoc.contains members k) &&
            propertiesPass pass n.properties members
        | _ => true

variable {g}

theorem propertiesPass_of {pass : Nat → Json → Bool} {properties : Assoc Nat}
    {members : List (String × Json)}
    (h : ∀ p ∈ properties, ∀ w, Assoc.get? members p.1 = some w → pass p.2 w = true) :
    propertiesPass pass properties members = true := by
  refine List.all_eq_true.mpr fun p mem => ?_
  cases found : Assoc.get? members p.1 with
  | none => rfl
  | some w => exact h p mem w found

theorem branchesPass_of {pass : Nat → Json → Bool} {branches : List Nat} {b : Nat} {v : Json}
    (mem : branches ≠ [] → b ∈ branches) (h : branches ≠ [] → pass b v = true) :
    (branches.isEmpty || branches.any fun b => pass b v) = true := by
  cases branches with
  | nil => rfl
  | cons first rest =>
    exact List.any_eq_true.mpr ⟨b, mem (List.cons_ne_nil _ _), h (List.cons_ne_nil _ _)⟩

theorem Satisfies.passes {i : Nat} {v : Json} (h : g.Satisfies .full i v) (depth : Nat) :
    g.passes depth i v = true := by
  induction depth generalizing i v with
  | zero => rfl
  | succ depth ih =>
    rw [Graph.passes.eq_def]
    dsimp only
    cases h with
    | ref kind target _ h => simp only [kind, target, Option.any_some, ih h]
    | primitive kind h =>
      simp only [kind]
      exact h
    | any kind => simp only [kind]
    | constant kind h => simp only [kind, h, beq_self_eq_true]
    | enumeration kind h => simp only [kind, List.contains_iff_mem.mpr h]
    | array kind each =>
      simp only [kind]
      cases items : (node g i).items with
      | none => rfl
      | some j => exact List.all_eq_true.mpr fun w mem => ih (each j items w mem)
    | object kind required properties additional =>
      simp only [kind, Bool.and_eq_true, Bool.or_eq_true, List.all_eq_true]
      refine ⟨⟨required, propertiesPass_of fun p mem w found => ih (properties p mem w found)⟩, ?_⟩
      cases none : (node g i).properties with
      | cons => exact Or.inl rfl
      | nil =>
        right
        cases schema : (node g i).additional with
        | none => rfl
        | some j => exact List.all_eq_true.mpr fun p mem => ih (additional none j schema p mem)
    | composition kind all oneOf oneHolds anyOf anyHolds beside properties =>
      simp only [kind, Bool.and_eq_true, List.all_eq_true]
      refine ⟨⟨⟨fun b mem => ih (all b mem), ?_⟩, ?_⟩, ?_⟩
      · exact branchesPass_of oneOf fun some => ih (oneHolds some)
      · exact branchesPass_of anyOf fun some => ih (anyHolds some)
      · split
        · next members =>
          rw [Bool.and_eq_true]
          refine ⟨List.all_eq_true.mpr (beside members rfl), propertiesPass_of ?_⟩
          exact fun p mem w found => ih (properties trivial p mem members rfl w found)
        · rfl

end Passes

end Graph

end TypedArchive
