import Mathlib.Order.Bounds.Basic
import TypedArchive.Proofs.Compile.Narrow

/-! Types under narrowing. Two types unify when some type is below both, and then to the greatest of
these. So unification does not depend on the order or the grouping of types, and what a value has to
meet is what each of them asks. -/

namespace TypedArchive

namespace TypeRef

theorem Below.antisymm {a b : TypeRef} (h : Below a b) (h' : Below b a) : a = b := by
  induction h with
  | refl t => rfl
  | any t =>
    cases h' with
    | refl | any => rfl
  | literal among => cases h'
  | integer => cases h'
  | array _ ih =>
    cases h' with
    | refl => rfl
    | array h' => rw [ih h']
  | map _ ih =>
    cases h' with
    | refl => rfl
    | map h' => rw [ih h']

/-- A type is at most another one when it is that one, narrowed. -/
instance : PartialOrder TypeRef where
  le := Below
  le_refl := .refl
  le_trans _ _ _ := Below.trans
  le_antisymm _ _ := Below.antisymm

/-- Primitives that one literal narrows are one inside the other. -/
theorem exists_unify_of_narrows {l : Literal} {p q : Primitive} (hp : narrows l p = true)
    (hq : narrows l q = true) :
    ∃ t, (primitive p).unify (primitive q) = some t ∧ Below (.literal l) t := by
  rw [narrows, Bool.or_eq_true, Bool.and_eq_true, beq_iff_eq, beq_iff_eq, beq_iff_eq] at hp hq
  have same {p : Primitive} (h : l.primitive = p) :
      ∃ t, (primitive p).unify (primitive p) = some t ∧ Below (.literal l) t :=
    ⟨_, unify_self _, .literal (by simp [narrows, h])⟩
  rcases hp with hp | ⟨rfl, integer⟩
  · rcases hq with hq | ⟨rfl, integer⟩
    · obtain rfl : p = q := hp.symm.trans hq
      exact same hp
    · obtain rfl : p = .integer := hp.symm.trans integer
      exact ⟨_, rfl, .literal (by simp [narrows, integer])⟩
  · rcases hq with hq | ⟨rfl, -⟩
    · obtain rfl : q = .integer := hq.symm.trans integer
      exact ⟨_, rfl, .literal (by simp [narrows, integer])⟩
    · exact ⟨_, rfl, .literal (by simp [narrows, integer])⟩

/-- Two types unify when some type is below both, and that type is below the result. -/
theorem exists_unify_of_below {s a b : TypeRef} (ha : Below s a) (hb : Below s b) :
    ∃ t, a.unify b = some t ∧ Below s t := by
  induction ha generalizing b with
  | refl s => exact ⟨s, unify_of_below hb, .refl s⟩
  | any s => exact ⟨b, by rw [unify], hb⟩
  | @literal l p among =>
    cases hb with
    | refl =>
      refine ⟨.literal l, ?_, .refl _⟩
      cases p with
      | any => rfl
      | _ => exact if_pos among
    | any => exact ⟨.primitive p, unify_of_below (.any _), .literal among⟩
    | literal among' => exact exists_unify_of_narrows among among'
  | integer =>
    cases hb with
    | refl => exact ⟨_, rfl, .refl _⟩
    | any => exact ⟨_, rfl, .integer⟩
    | integer => exact ⟨_, unify_self _, .integer⟩
  | array ha ih =>
    cases hb with
    | any => exact ⟨_, unify_of_below (.any _), .array ha⟩
    | refl =>
      obtain ⟨t, found, below⟩ := ih (.refl _)
      exact ⟨.array t, by rw [unify, found, Option.map_some], .array below⟩
    | array hb =>
      obtain ⟨t, found, below⟩ := ih hb
      exact ⟨.array t, by rw [unify, found, Option.map_some], .array below⟩
  | map ha ih =>
    cases hb with
    | any => exact ⟨_, unify_of_below (.any _), .map ha⟩
    | refl =>
      obtain ⟨t, found, below⟩ := ih (.refl _)
      exact ⟨.map t, by rw [unify, found, Option.map_some], .map below⟩
    | map hb =>
      obtain ⟨t, found, below⟩ := ih hb
      exact ⟨.map t, by rw [unify, found, Option.map_some], .map below⟩

/-- Unification is the meet, so far as there is one. -/
theorem unify_eq_some_iff {a b t : TypeRef} : a.unify b = some t ↔ IsGLB {a, b} t := by
  constructor
  · intro found
    obtain ⟨left, right⟩ := below_of_unify found
    refine ⟨?_, fun s lower => ?_⟩
    · rintro _ (rfl | rfl)
      · exact left
      · exact right
    · obtain ⟨t', found', below⟩ := exists_unify_of_below (lower (.inl rfl)) (lower (.inr rfl))
      cases found.symm.trans found'
      exact below
  · intro meet
    obtain ⟨t', found, below⟩ := exists_unify_of_below (meet.1 (.inl rfl)) (meet.1 (.inr rfl))
    obtain ⟨left, right⟩ := below_of_unify found
    have greatest : t' ≤ t := by
      apply meet.2
      rintro _ (rfl | rfl)
      · exact left
      · exact right
    rw [found, greatest.antisymm below]

theorem unify_comm (a b : TypeRef) : a.unify b = b.unify a := by
  ext t
  rw [unify_eq_some_iff, unify_eq_some_iff, Set.pair_comm]

/-- What two types unify to stands for both of them in a meet with more types. -/
theorem isGLB_insert_iff {a b m t : TypeRef} {types : Set TypeRef} (found : a.unify b = some m) :
    IsGLB (insert m types) t ↔ IsGLB (insert a (insert b types)) t := by
  have meet := unify_eq_some_iff.mp found
  have same : lowerBounds (insert m types) = lowerBounds (insert a (insert b types)) := by
    ext s
    have pair : s ≤ m ↔ s ≤ a ∧ s ≤ b := by
      rw [le_isGLB_iff meet, lowerBounds_insert, lowerBounds_singleton]
      rfl
    simp only [lowerBounds_insert, Set.mem_inter_iff, Set.mem_Iic, pair, and_assoc]
  rw [IsGLB, IsGLB, same]

/-- Unifying two types and then a third gives the meet of the three. -/
theorem bind_unify_eq_some_iff {a b c t : TypeRef} :
    ((a.unify b).bind fun m => m.unify c) = some t ↔ IsGLB {a, b, c} t := by
  rw [Option.bind_eq_some_iff]
  constructor
  · rintro ⟨m, found, unify⟩
    exact (isGLB_insert_iff found).mp (unify_eq_some_iff.mp unify)
  · intro meet
    have lower := meet.1
    obtain ⟨m, found, -⟩ :=
      exists_unify_of_below (lower (.inl rfl)) (lower (.inr (.inl rfl)))
    exact ⟨m, found, unify_eq_some_iff.mpr ((isGLB_insert_iff found).mpr meet)⟩

theorem unify_assoc (a b c : TypeRef) :
    ((a.unify b).bind fun m => m.unify c) = (b.unify c).bind fun m => a.unify m := by
  ext t
  have turned : ((b.unify c).bind fun m => a.unify m) = (b.unify c).bind fun m => m.unify a :=
    congrArg _ (funext fun m => unify_comm a m)
  rw [turned, bind_unify_eq_some_iff, bind_unify_eq_some_iff]
  have rotated : ({a, b, c} : Set TypeRef) = {b, c, a} := by
    rw [Set.insert_comm a b, Set.pair_comm a c]
  rw [rotated]

/-- Unification of types is a partial meet: it is idempotent, commutative and associative, where one
side fails just when the other does, and gives the greatest type below both. A value decodes as the
result when it decodes as both types, whatever catalog the names are looked up in. -/
theorem unify_isMeet (a b c : TypeRef) :
    a.unify a = some a ∧ a.unify b = b.unify a ∧
      ((a.unify b).bind fun t => t.unify c) = ((b.unify c).bind fun t => a.unify t) ∧
      (∀ t, a.unify b = some t ↔ IsGLB {a, b} t) ∧
      ∀ t, a.unify b = some t → ∀ (catalog : Catalog) (v : Json) (path : FieldPath),
        (Decode.value catalog v t path).isOk =
          ((Decode.value catalog v a path).isOk && (Decode.value catalog v b path).isOk) := by
  refine ⟨unify_self a, unify_comm a b, unify_assoc a b c, fun t => unify_eq_some_iff,
    fun t found catalog v path => ?_⟩
  rw [Bool.eq_iff_iff, Bool.and_eq_true]
  simp only [Catalog.isOk_value_iff]
  exact accepts_unify found v

/-- Lists of numbers, of whole numbers and of one number: five of it decode as all three, and the
text in the second list is what its types refuse. -/
theorem unify_isMeet_numbers :
    let five : TypeRef := .literal (.integer 5)
    let a : TypeRef := .array (.primitive .number)
    let b : TypeRef := .array (.primitive .integer)
    a.unify b = some b ∧ a.unify (.array five) = some (.array five) ∧
      (∀ v path, (Decode.value {} v b path).isOk =
        ((Decode.value {} v a path).isOk && (Decode.value {} v b path).isOk)) ∧
      (Decode.value {} (.array [.ofInt64 5]) b []).isOk = true ∧
      (Decode.value {} (.array [.string "5"]) b []).isOk = false := by
  intro five a b
  obtain ⟨-, -, -, -, decodes⟩ := unify_isMeet a b (.array five)
  exact ⟨rfl, rfl, decodes b rfl {}, by decide, by decide⟩

end TypeRef

end TypedArchive
