import Mathlib.Data.List.Forall2
import TypedArchive.Compile.Build
import TypedArchive.Proofs.Assoc

/-! What a successful compilation says about a node: which types stand for it, and which entries
define it. The rules do not depend on the order of compilation or on a budget. -/

namespace TypedArchive.Compile

/-- Nodes and the names that they own. -/
abbrev Names := List (Nat × String)

/-- A type that stands for a node inside another type. -/
inductive Refers (g : Graph) (names : Names) : Nat → TypeRef → Prop
  | named {i : Nat} {name : String} (owned : (i, name) ∈ names) : Refers g names i (.named name)
  | single {i b : Nat} {t : TypeRef} (branch : singleBranch (node g i) = some b)
      (h : Refers g names b t) : Refers g names i t
  | ref {i j : Nat} {t : TypeRef} (kind : (node g i).kind = .ref)
      (target : g.refTarget? i = some j) (h : Refers g names j t) : Refers g names i t
  | primitive {i : Nat} {p : Primitive} (kind : (node g i).kind = .primitive p) :
      Refers g names i (.primitive p)
  | any {i : Nat} (kind : (node g i).kind = .any) : Refers g names i .any
  | constant {i : Nat} {l : Literal} (kind : (node g i).kind = .constant)
      (literal : constantOf (node g i) = .ok l) : Refers g names i (.literal l)
  | enumeration {i : Nat} {l : Literal} {more : List Literal} {descriptions : List String}
      (kind : (node g i).kind = .enumeration) (one : ((node g i).enumValues.getD []).length = 1)
      (literals : enumOf (node g i) = .ok (l :: more, descriptions)) :
      Refers g names i (.literal l)
  | array {i j : Nat} {t : TypeRef} (kind : (node g i).kind = .array)
      (items : (node g i).items = some j) (h : Refers g names j t) : Refers g names i (.array t)
  | anyArray {i : Nat} (kind : (node g i).kind = .array) (items : (node g i).items = none) :
      Refers g names i (.array .any)
  | map {i j : Nat} {t : TypeRef} (kind : (node g i).kind = .object)
      (properties : (node g i).properties = []) (additional : (node g i).additional = some j)
      (h : Refers g names j t) : Refers g names i (.map t)
  | anyMap {i : Nat} (kind : (node g i).kind = .object)
      (properties : (node g i).properties = []) (additional : (node g i).additional = none) :
      Refers g names i (.map .any)

/-- The element type of an array node. -/
def ItemsRefer (g : Graph) (names : Names) (n : Node) (t : TypeRef) : Prop :=
  match n.items with
  | some items => Refers g names items t
  | none => t = .any

/-- The type of the values of an object node that declares no properties. -/
def ValuesRefer (g : Graph) (names : Names) (n : Node) (t : TypeRef) : Prop :=
  match n.additional with
  | some additional => Refers g names additional t
  | none => t = .any

/-- A type that repeats what a node itself says. -/
inductive Describes (g : Graph) (names : Names) (i : Nat) : TypeRef → Prop
  | primitive {p : Primitive} (kind : (node g i).kind = .primitive p) :
      Describes g names i (.primitive p)
  | any (kind : (node g i).kind = .any) : Describes g names i .any
  | constant {l : Literal} (kind : (node g i).kind = .constant)
      (literal : constantOf (node g i) = .ok l) : Describes g names i (.literal l)
  | enumeration {l : Literal} {more : List Literal} {descriptions : List String}
      (kind : (node g i).kind = .enumeration) (one : ((node g i).enumValues.getD []).length = 1)
      (literals : enumOf (node g i) = .ok (l :: more, descriptions)) :
      Describes g names i (.literal l)
  | array {t : TypeRef} (kind : (node g i).kind = .array)
      (element : ItemsRefer g names (node g i) t) : Describes g names i (.array t)
  | map {t : TypeRef} (kind : (node g i).kind = .object)
      (properties : (node g i).properties = []) (values : ValuesRefer g names (node g i) t) :
      Describes g names i (.map t)

/-- A node that is nothing but another one. -/
inductive Forwards (g : Graph) (i j : Nat) : Prop
  | ref (kind : (node g i).kind = .ref) (target : g.refTarget? i = some j)
  | single (branch : singleBranch (node g i) = some j)

/-- The field that a record has for a property of its node. -/
def FieldOf (g : Graph) (names : Names) (n : Node) (property : String × Nat) (f : Field) : Prop :=
  f.name = property.1 ∧ Refers g names property.2 f.type ∧
    f.optional = !n.required.contains property.1

/-- The nodes that an `allOf` is made of: itself, its branches and the targets of references among
them, and so on. -/
inductive Part (g : Graph) : Nat → Nat → Prop
  | self {i : Nat} : Part g i i
  | ref {i j k : Nat} (kind : (node g i).kind = .ref) (target : g.refTarget? i = some j)
      (h : Part g j k) : Part g i k
  | branch {i b k : Nat} (kind : (node g i).kind = .composition) (mem : b ∈ (node g i).allOf)
      (h : Part g b k) : Part g i k

/-- The properties that a node adds to an `allOf`. -/
def partProperties (n : Node) : Assoc Nat :=
  match n.kind with
  | .object | .composition => n.properties
  | _ => []

/-- A node may be a part of an `allOf`. -/
def Mergeable (n : Node) : Prop :=
  match n.kind with
  | .ref | .object | .any => True
  | .composition => n.oneOf = [] ∧ n.anyOf = []
  | _ => False

/-- A type that is narrowed from several. -/
inductive Meet : List TypeRef → TypeRef → Prop
  | one (t : TypeRef) : Meet [t] t
  | narrow {ts : List TypeRef} {a b t : TypeRef} (h : Meet ts a) (unify : a.unify b = some t) :
      Meet (ts ++ [b]) t

/-- The merged fields are those of the sources, each of a type narrowed from the types of its
sources. -/
structure Gathers (g : Graph) (names : Names) (sources : List (String × Nat)) (m : Merged) :
    Prop where
  sorted : m.fields.Sorted
  name : ∀ key f, m.fields.get? key = some f → f.name = key
  listed : ∀ key, key ∈ m.fields.keys ↔ key ∈ sources.map Prod.fst
  meet : ∀ key f, m.fields.get? key = some f → ∃ ts, Meet ts f.type ∧
    (∀ i, (key, i) ∈ sources → ∃ t ∈ ts, Refers g names i t) ∧
    ∀ t ∈ ts, ∃ i, (key, i) ∈ sources ∧ Refers g names i t

/-- The fields of an `allOf` node are gathered from its parts. -/
structure MergedOf (g : Graph) (names : Names) (i : Nat) (parts : List Nat) (m : Merged) :
    Prop where
  parts_iff : ∀ j, j ∈ parts ↔ Part g i j
  mergeable : ∀ j ∈ parts, Mergeable (node g j)
  gathers : Gathers g names (parts.flatMap fun j => partProperties (node g j)) m
  required : m.required = parts.flatMap fun j => (node g j).required

/-- The definition that an entry owned by a node has. -/
inductive Defines (g : Graph) (names : Names) (i : Nat) : TypeDef → Prop
  | ref {j : Nat} {t : TypeRef} (kind : (node g i).kind = .ref)
      (target : g.refTarget? i = some j) (h : Refers g names j t) : Defines g names i (.alias t)
  | single {b : Nat} {t : TypeRef} (branch : singleBranch (node g i) = some b)
      (h : Refers g names b t) : Defines g names i (.alias t)
  | merged {parts : List Nat} {m : Merged} (kind : (node g i).kind = .composition)
      (several : singleBranch (node g i) = none) (allOf : (node g i).allOf ≠ [])
      (h : MergedOf g names i parts m) : Defines g names i (.record m.toFields)
  | map {j : Nat} {t : TypeRef} (kind : (node g i).kind = .object)
      (properties : (node g i).properties = []) (additional : (node g i).additional = some j)
      (h : Refers g names j t) : Defines g names i (.alias (.map t))
  | record {fields : List Field} (kind : (node g i).kind = .object)
      (declared : (node g i).properties = [] → (node g i).additional = none)
      (h : List.Forall₂ (FieldOf g names (node g i)) (node g i).properties fields) :
      Defines g names i (.record fields)
  | array {t : TypeRef} (kind : (node g i).kind = .array) (h : ItemsRefer g names (node g i) t) :
      Defines g names i (.array t)
  | enumeration {values : List Literal} {descriptions : List String}
      (kind : (node g i).kind = .enumeration)
      (literals : enumOf (node g i) = .ok (values, descriptions)) :
      Defines g names i (.enumeration values descriptions)
  | constant {l : Literal} (kind : (node g i).kind = .constant)
      (literal : constantOf (node g i) = .ok l) : Defines g names i (.alias (.literal l))
  | primitive {p : Primitive} (kind : (node g i).kind = .primitive p) :
      Defines g names i (.alias (.primitive p))
  | any (kind : (node g i).kind = .any) : Defines g names i (.alias .any)

/-- The alternatives of a union node. -/
def alternatives (n : Node) : List Nat := if n.oneOf.isEmpty then n.anyOf else n.oneOf

/-- The branches of a union that a node owns. -/
structure Defers (g : Graph) (names : Names) (i : Nat) (branches : List TypeRef) : Prop where
  kind : (node g i).kind = .composition
  several : singleBranch (node g i) = none
  allOf : (node g i).allOf = []
  refers : List.Forall₂ (Refers g names) (alternatives (node g i)) branches

section Mono

variable {g : Graph} {names more : Names} (sub : names ⊆ more)

include sub

theorem Refers.mono {i : Nat} {t : TypeRef} (h : Refers g names i t) : Refers g more i t := by
  induction h with
  | named owned => exact .named (sub owned)
  | single branch _ ih => exact .single branch ih
  | ref kind target _ ih => exact .ref kind target ih
  | primitive kind => exact .primitive kind
  | any kind => exact .any kind
  | constant kind literal => exact .constant kind literal
  | enumeration kind one literals => exact .enumeration kind one literals
  | array kind items _ ih => exact .array kind items ih
  | anyArray kind items => exact .anyArray kind items
  | map kind properties additional _ ih => exact .map kind properties additional ih
  | anyMap kind properties additional => exact .anyMap kind properties additional

theorem ItemsRefer.mono {n : Node} {t : TypeRef} (h : ItemsRefer g names n t) :
    ItemsRefer g more n t := by
  rw [ItemsRefer] at h ⊢
  split at h
  · exact Refers.mono sub h
  · exact h

theorem FieldOf.mono {n : Node} {p : String × Nat} {f : Field} (h : FieldOf g names n p f) :
    FieldOf g more n p f :=
  ⟨h.1, h.2.1.mono sub, h.2.2⟩

theorem Gathers.mono {sources : List (String × Nat)} {m : Merged}
    (h : Gathers g names sources m) : Gathers g more sources m := by
  refine ⟨h.sorted, h.name, h.listed, fun key f found => ?_⟩
  obtain ⟨ts, meet, covers, sources⟩ := h.meet key f found
  refine ⟨ts, meet, fun i mem => ?_, fun t mem => ?_⟩
  · obtain ⟨t, mem, refers⟩ := covers i mem
    exact ⟨t, mem, refers.mono sub⟩
  · obtain ⟨i, mem, refers⟩ := sources t mem
    exact ⟨i, mem, refers.mono sub⟩

theorem Defines.mono {i : Nat} {t : TypeDef} (h : Defines g names i t) : Defines g more i t := by
  cases h with
  | ref kind target h => exact .ref kind target (h.mono sub)
  | single branch h => exact .single branch (h.mono sub)
  | merged kind several allOf h =>
    exact .merged kind several allOf ⟨h.parts_iff, h.mergeable, h.gathers.mono sub, h.required⟩
  | map kind properties additional h => exact .map kind properties additional (h.mono sub)
  | record kind declared h => exact .record kind declared (h.imp fun _ _ h => h.mono sub)
  | array kind h => exact .array kind (h.mono sub)
  | enumeration kind literals => exact .enumeration kind literals
  | constant kind literal => exact .constant kind literal
  | primitive kind => exact .primitive kind
  | any kind => exact .any kind

theorem Defers.mono {i : Nat} {branches : List TypeRef} (h : Defers g names i branches) :
    Defers g more i branches :=
  ⟨h.kind, h.several, h.allOf, h.refers.imp fun _ _ h => h.mono sub⟩

end Mono

theorem singleBranch_kind {n : Node} {b : Nat} (h : singleBranch n = some b) :
    n.kind = .composition := by
  rw [singleBranch] at h
  split at h
  · next own => exact own.1
  · cases h

section Parts

variable {g : Graph} {i j k : Nat}

theorem part_ref_iff (kind : (node g i).kind = .ref) (target : g.refTarget? i = some j) :
    Part g i k ↔ k = i ∨ Part g j k := by
  constructor
  · intro part
    cases part with
    | self => exact Or.inl rfl
    | ref _ target' part =>
      cases target.symm.trans target'
      exact Or.inr part
    | branch kind' => cases kind.symm.trans kind'
  · rintro (rfl | part)
    · exact .self
    · exact .ref kind target part

theorem part_composition_iff (kind : (node g i).kind = .composition) :
    Part g i k ↔ k = i ∨ ∃ b ∈ (node g i).allOf, Part g b k := by
  constructor
  · intro part
    cases part with
    | self => exact Or.inl rfl
    | ref kind' => cases kind.symm.trans kind'
    | branch _ mem part => exact Or.inr ⟨_, mem, part⟩
  · rintro (rfl | ⟨b, mem, part⟩)
    · exact .self
    · exact .branch kind mem part

theorem part_plain_iff (ref : (node g i).kind ≠ .ref)
    (composition : (node g i).kind ≠ .composition) : Part g i k ↔ k = i := by
  constructor
  · intro part
    cases part with
    | self => rfl
    | ref kind => exact absurd kind ref
    | branch kind => exact absurd kind composition
  · rintro rfl
    exact .self

end Parts

section Inversion

variable {g : Graph} {names : Names} {i j : Nat} {t : TypeRef}

theorem Refers.forwards (forward : Forwards g i j) (h : Refers g names i t) :
    (∃ name, t = .named name ∧ (i, name) ∈ names) ∨ Refers g names j t := by
  cases forward with
  | ref kind target =>
    cases h with
    | named owned => exact Or.inl ⟨_, rfl, owned⟩
    | single branch => simp [singleBranch_kind branch] at kind
    | ref _ target' h =>
      cases target.symm.trans target'
      exact Or.inr h
    | _ => simp_all
  | single branch =>
    have kind := singleBranch_kind branch
    cases h with
    | named owned => exact Or.inl ⟨_, rfl, owned⟩
    | single branch' h =>
      cases branch.symm.trans branch'
      exact Or.inr h
    | _ => simp_all

theorem Defines.forwards (forward : Forwards g i j) {type : TypeDef}
    (h : Defines g names i type) : ∃ t, type = .alias t ∧ Refers g names j t := by
  cases forward with
  | ref kind target =>
    cases h with
    | ref _ target' h =>
      cases target.symm.trans target'
      exact ⟨_, rfl, h⟩
    | single branch => simp [singleBranch_kind branch] at kind
    | _ => simp_all
  | single branch =>
    have kind := singleBranch_kind branch
    cases h with
    | single branch' h =>
      cases branch.symm.trans branch'
      exact ⟨_, rfl, h⟩
    | _ => simp_all

theorem Defers.not_forwards {branches : List TypeRef} (h : Defers g names i branches) :
    ¬Forwards g i j := by
  rintro (⟨kind, -⟩ | branch)
  · cases h.kind.symm.trans kind
  · cases h.several.symm.trans branch

section Plain

variable (ref : (node g i).kind ≠ .ref) (composition : (node g i).kind ≠ .composition)

include ref composition

theorem Refers.describes (h : Refers g names i t) :
    (∃ name, t = .named name ∧ (i, name) ∈ names) ∨ Describes g names i t := by
  cases h with
  | named owned => exact Or.inl ⟨_, rfl, owned⟩
  | single branch => exact absurd (singleBranch_kind branch) composition
  | ref kind => exact absurd kind ref
  | primitive kind => exact Or.inr (.primitive kind)
  | any kind => exact Or.inr (.any kind)
  | constant kind literal => exact Or.inr (.constant kind literal)
  | enumeration kind one literals => exact Or.inr (.enumeration kind one literals)
  | array kind items h => exact Or.inr (.array kind (by rwa [ItemsRefer, items]))
  | anyArray kind items => exact Or.inr (.array kind (by rw [ItemsRefer, items]))
  | map kind properties additional h =>
    exact Or.inr (.map kind properties (by rwa [ValuesRefer, additional]))
  | anyMap kind properties additional =>
    exact Or.inr (.map kind properties (by rw [ValuesRefer, additional]))

/-- An entry of a plain node is described like the node, lists its values or has its properties as
fields. -/
theorem Defines.describes {type : TypeDef} (h : Defines g names i type) :
    (∃ t, type = .alias t ∧ Describes g names i t) ∨
      (∃ t, type = .array t ∧ Describes g names i (.array t)) ∨
      (∃ values descriptions, type = .enumeration values descriptions ∧
        (node g i).kind = .enumeration ∧ enumOf (node g i) = .ok (values, descriptions)) ∨
      ∃ fields, type = .record fields ∧ (node g i).kind = .object ∧
        List.Forall₂ (FieldOf g names (node g i)) (node g i).properties fields := by
  cases h with
  | ref kind => exact absurd kind ref
  | single branch => exact absurd (singleBranch_kind branch) composition
  | merged kind => exact absurd kind composition
  | map kind properties additional h =>
    exact Or.inl ⟨_, rfl, .map kind properties (by rwa [ValuesRefer, additional])⟩
  | record kind _ h => exact Or.inr (Or.inr (Or.inr ⟨_, rfl, kind, h⟩))
  | array kind h => exact Or.inr (Or.inl ⟨_, rfl, .array kind h⟩)
  | enumeration kind literals => exact Or.inr (Or.inr (Or.inl ⟨_, _, rfl, kind, literals⟩))
  | constant kind literal => exact Or.inl ⟨_, rfl, .constant kind literal⟩
  | primitive kind => exact Or.inl ⟨_, rfl, .primitive kind⟩
  | any kind => exact Or.inl ⟨_, rfl, .any kind⟩

end Plain

end Inversion

end TypedArchive.Compile
