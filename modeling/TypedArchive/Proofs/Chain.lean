import Mathlib.Data.List.Nodup
import Mathlib.Data.List.Perm.Subperm
import Mathlib.Data.Nat.Find
import Mathlib.Logic.Relation

/-! Chains of a partial function on finitely many places. A chain that ends visits no place twice,
so the number of places bounds its length. -/

namespace TypedArchive.Chain

variable {α β : Type} {next : α → Option α}

/-- The chain from a place ends after at most so many steps. -/
def EndsWithin (next : α → Option α) : (steps : Nat) → α → Prop
  | 0, a => next a = none
  | steps + 1, a => ∀ b, next a = some b → EndsWithin next steps b

theorem EndsWithin.succ {steps : Nat} {a : α} (h : EndsWithin next steps a) :
    EndsWithin next (steps + 1) a := by
  induction steps generalizing a with
  | zero =>
    intro b hb
    simp only [EndsWithin] at h
    rw [h] at hb
    cases hb
  | succ steps ih =>
    intro b hb
    exact ih (h b hb)

theorem EndsWithin.mono {steps more : Nat} {a : α} (h : EndsWithin next steps a)
    (le : steps ≤ more) : EndsWithin next more a := by
  induction le with
  | refl => exact h
  | step _ ih => exact ih.succ

theorem EndsWithin.pred {steps : Nat} {a b : α} (h : EndsWithin next steps a)
    (step : next a = some b) : ∃ fewer, steps = fewer + 1 ∧ EndsWithin next fewer b := by
  cases steps with
  | zero =>
    rw [EndsWithin, step] at h
    cases h
  | succ fewer => exact ⟨fewer, rfl, h b step⟩

/-- The chain from a place has exactly so many steps. -/
def Length (next : α → Option α) (steps : Nat) (a : α) : Prop :=
  EndsWithin next steps a ∧ ∀ fewer < steps, ¬ EndsWithin next fewer a

theorem Length.unique {m n : Nat} {a : α} (hm : Length next m a) (hn : Length next n a) :
    m = n := by
  rcases Nat.lt_trichotomy m n with lt | eq | gt
  · exact absurd hm.1 (hn.2 m lt)
  · exact eq
  · exact absurd hn.1 (hm.2 n gt)

theorem EndsWithin.exists_length {steps : Nat} {a : α} (h : EndsWithin next steps a) :
    ∃ n, Length next n a := by
  classical
  have ends : ∃ n, EndsWithin next n a := ⟨steps, h⟩
  exact ⟨Nat.find ends, Nat.find_spec ends, fun _ lt => Nat.find_min ends lt⟩

theorem Length.step {steps : Nat} {a : α} (h : Length next (steps + 1) a) :
    ∃ b, next a = some b ∧ Length next steps b := by
  obtain ⟨ends, least⟩ := h
  cases hb : next a with
  | none => exact absurd hb (least 0 (Nat.succ_pos steps))
  | some b =>
    refine ⟨b, rfl, ends b hb, fun fewer lt within => ?_⟩
    apply least (fewer + 1) (Nat.succ_lt_succ lt)
    intro b' hb'
    rw [hb] at hb'
    cases hb'
    exact within

/-- The places that a chain leaves are distinct, as their chains differ in length. -/
theorem Length.visited {places : List α} (covers : ∀ a b, next a = some b → a ∈ places)
    {steps : Nat} {a : α} (h : Length next steps a) :
    ∃ visited : List α, visited.length = steps ∧ visited.Nodup ∧ visited ⊆ places ∧
      ∀ x ∈ visited, ∃ n ≤ steps, Length next n x := by
  induction steps generalizing a with
  | zero => exact ⟨[], rfl, List.nodup_nil, List.nil_subset _, by simp⟩
  | succ steps ih =>
    obtain ⟨b, hb, tail⟩ := h.step
    obtain ⟨visited, len, distinct, sub, bound⟩ := ih tail
    have fresh : a ∉ visited := by
      intro mem
      obtain ⟨n, le, hn⟩ := bound a mem
      have := h.unique hn
      omega
    refine ⟨a :: visited, by simp [len], distinct.cons fresh,
      List.cons_subset.mpr ⟨covers a b hb, sub⟩, ?_⟩
    intro x mem
    rcases List.mem_cons.mp mem with rfl | mem
    · exact ⟨steps + 1, Nat.le_refl _, h⟩
    · obtain ⟨n, le, hn⟩ := bound x mem
      exact ⟨n, by omega, hn⟩

/-- A chain that ends takes at most one step for each place. -/
theorem EndsWithin.length_places {places : List α} (covers : ∀ a b, next a = some b → a ∈ places)
    {steps : Nat} {a : α} (h : EndsWithin next steps a) :
    EndsWithin next places.length a := by
  obtain ⟨n, hn⟩ := h.exists_length
  obtain ⟨visited, len, distinct, sub, -⟩ := hn.visited covers
  have := (List.subperm_of_subset distinct sub).length_le
  exact hn.1.mono (by omega)

/-- One step of the chain leads from a place to the next. -/
def Step (next : α → Option α) (a b : α) : Prop := next a = some b

theorem step_unique {a b b' : α} (h : Step next a b) (h' : Step next a b') : b = b' :=
  Option.some.inj (Eq.trans (Eq.symm h) h')

/-- A circle turns with each step. -/
theorem circle_step {a b : α} (circle : Relation.TransGen (Step next) a a)
    (h : Step next a b) : Relation.TransGen (Step next) b b := by
  obtain ⟨b', first, rest⟩ := Relation.TransGen.head'_iff.mp circle
  cases step_unique h first
  exact Relation.TransGen.tail' rest h

/-- A chain from a place in a circle does not end. -/
theorem not_endsWithin_of_circle {a : α} (circle : Relation.TransGen (Step next) a a)
    (steps : Nat) : ¬EndsWithin next steps a := by
  intro ends
  obtain ⟨b, first, -⟩ := Relation.TransGen.head'_iff.mp circle
  induction steps generalizing a b with
  | zero =>
    rw [EndsWithin] at ends
    exact Option.some_ne_none b (Eq.trans (Eq.symm first) ends)
  | succ steps ih =>
    have rest := circle_step circle first
    obtain ⟨b', second, -⟩ := Relation.TransGen.head'_iff.mp rest
    exact ih rest (ends b first) b' second

/-- A chain that comes to no circle ends: the places on the way differ. -/
theorem endsWithin_of_no_circle_ahead {places : List α}
    (covers : ∀ a b, next a = some b → a ∈ places) (start : α)
    (circles : ∀ a, Relation.ReflTransGen (Step next) start a → ¬Relation.TransGen (Step next) a a) :
    EndsWithin next places.length start := by
  suffices walk : ∀ (left : Nat) (passed : List α) (a : α), Relation.ReflTransGen (Step next) start a →
      passed.Nodup → passed ⊆ places → (∀ x ∈ passed, Relation.TransGen (Step next) x a) →
      places.length ≤ passed.length + left → EndsWithin next left a from
    walk _ [] start .refl List.nodup_nil (List.nil_subset _) (List.forall_mem_nil _) (by simp)
  intro left
  induction left with
  | zero =>
    intro passed a ahead distinct sub leads all
    by_contra goes
    obtain ⟨b, step⟩ := Option.ne_none_iff_exists'.mp goes
    have fresh : a ∉ passed := fun mem => circles a ahead (leads a mem)
    have more := (List.subperm_of_subset (distinct.cons fresh)
      (List.cons_subset.mpr ⟨covers a b step, sub⟩)).length_le
    rw [List.length_cons] at more
    omega
  | succ left ih =>
    intro passed a ahead distinct sub leads all b step
    have fresh : a ∉ passed := fun mem => circles a ahead (leads a mem)
    refine ih (a :: passed) b (ahead.tail step) (distinct.cons fresh)
      (List.cons_subset.mpr ⟨covers a b step, sub⟩)
      (List.forall_mem_cons.mpr ⟨.single step, fun x mem => (leads x mem).tail step⟩) ?_
    rw [List.length_cons]
    omega

/-- Without circles every chain ends. -/
theorem endsWithin_of_no_circle {places : List α} (covers : ∀ a b, next a = some b → a ∈ places)
    (circles : ∀ a, ¬Relation.TransGen (Step next) a a) (a : α) :
    EndsWithin next places.length a :=
  endsWithin_of_no_circle_ahead covers a fun b _ => circles b

theorem EndsWithin.exists_last {steps : Nat} {a : α} (h : EndsWithin next steps a) :
    ∃ last, Relation.ReflTransGen (Step next) a last ∧ next last = none := by
  induction steps generalizing a with
  | zero => exact ⟨a, .refl, h⟩
  | succ steps ih =>
    cases step : next a with
    | none => exact ⟨a, .refl, step⟩
    | some b =>
      obtain ⟨last, ahead, stops⟩ := ih (h b step)
      exact ⟨last, .head step ahead, stops⟩

/-- Nothing comes after the last place of a chain. -/
theorem eq_last {b last : α} (stops : next last = none)
    (ahead : Relation.ReflTransGen (Step next) last b) : b = last := by
  rcases ahead.cases_head with same | ⟨c, step, -⟩
  · exact same.symm
  · cases stops.symm.trans step

/-- A chain that ends comes to no circle. -/
theorem no_circle_of_last {a b last : α} (stops : next last = none)
    (ahead : Relation.ReflTransGen (Step next) a last)
    (reached : Relation.ReflTransGen (Step next) a b) : ¬Relation.TransGen (Step next) b b := by
  induction ahead using Relation.ReflTransGen.head_induction_on with
  | refl =>
    intro circle
    cases eq_last stops reached
    obtain ⟨c, step, -⟩ := Relation.TransGen.head'_iff.mp circle
    cases stops.symm.trans step
  | head step _ ih =>
    rcases reached.cases_head with rfl | ⟨c, step', reached⟩
    · intro circle
      obtain ⟨c, step', back⟩ := Relation.TransGen.head'_iff.mp circle
      cases step_unique step step'
      exact ih back circle
    · cases step_unique step step'
      exact ih reached

/-- A chain ends at one place. -/
theorem last_unique {a last last' : α} (stops : next last = none) (stops' : next last' = none)
    (ahead : Relation.ReflTransGen (Step next) a last)
    (ahead' : Relation.ReflTransGen (Step next) a last') : last = last' := by
  have unique : Relator.RightUnique (Step next) := fun _ _ _ => step_unique
  rcases Relation.ReflTransGen.total_of_right_unique unique ahead ahead' with after | before
  · exact (eq_last stops after).symm
  · exact eq_last stops' before

/-- A search along a chain: `found steps a r` says that it gives `r` within so many steps. What it
gives within any number of steps it gives within one more than the number of places. -/
theorem search_bounded {places : List α} (found : Nat → α → β → Prop)
    (covers : ∀ a b, next a = some b → a ∈ places)
    (last : ∀ {m a r}, next a = none → found m a r → ∀ k, found (k + 1) a r)
    (step : ∀ {m a b r}, next a = some b → found m a r →
      ∃ k r', m = k + 1 ∧ found k b r' ∧ ∀ j, found j b r' → found (j + 1) a r)
    {steps : Nat} {a : α} {r : β} (h : found steps a r) :
    found (places.length + 1) a r := by
  have ends : EndsWithin next steps a := by
    clear last
    induction steps generalizing a r with
    | zero =>
      cases hb : next a with
      | none => exact hb
      | some b =>
        obtain ⟨k, -, eq, -⟩ := step hb h
        cases eq
    | succ steps ih =>
      intro b hb
      obtain ⟨k, r', eq, tail, -⟩ := step hb h
      cases eq
      exact ih tail
  have within := ends.length_places covers
  generalize places.length = bound at within
  clear ends
  induction bound generalizing steps a r with
  | zero => exact last within h 0
  | succ bound ih =>
    cases hb : next a with
    | none => exact last hb h _
    | some b =>
      obtain ⟨k, r', -, tail, back⟩ := step hb h
      exact back _ (ih tail (within b hb))

end TypedArchive.Chain
