import TypedArchive.Proofs.Chain

/-! Work done in rounds. A round on a value asks for work on smaller values, and for work on the
whole value as at most one other type. So the types that a value is handed on to, and how deep it
is, bound the rounds: what any number of rounds comes to, the bound comes to. -/

namespace TypedArchive

namespace Steps

variable {ε α β : Type}

/-- Steps that have come to a result or an error go on as that does. -/
theorem some_bind {x : Except ε α} {f : α → ExceptT ε Option β} {k : α → Except ε β}
    (h : ∀ a, x = .ok a → f a = ExceptT.mk (some (k a))) :
    (ExceptT.mk (some x) >>= f) = ExceptT.mk (some (x >>= k)) := by
  cases x with
  | error e => rfl
  | ok a => exact h a rfl

theorem mapM_some {f : α → ExceptT ε Option β} {k : α → Except ε β} {xs : List α}
    (each : ∀ x ∈ xs, f x = ExceptT.mk (some (k x))) :
    xs.mapM f = ExceptT.mk (some (xs.mapM k)) := by
  induction xs with
  | nil => rfl
  | cons x xs ih =>
    rw [List.forall_mem_cons] at each
    rw [List.mapM_cons, List.mapM_cons, each.1, ih each.2]
    exact some_bind fun y _ => some_bind fun ys _ => rfl

theorem foldlM_some {f : β → α → ExceptT ε Option β} {k : β → α → Except ε β} {xs : List α}
    {start : β} (each : ∀ x ∈ xs, ∀ b, f b x = ExceptT.mk (some (k b x))) :
    xs.foldlM f start = ExceptT.mk (some (xs.foldlM k start)) := by
  induction xs generalizing start with
  | nil => rfl
  | cons x xs ih =>
    rw [List.forall_mem_cons] at each
    rw [List.foldlM_cons, List.foldlM_cons, each.1]
    exact some_bind fun b _ => ih each.2

/-- What the first steps come to, the second do. -/
def Below (x y : ExceptT ε Option α) : Prop := ∀ r, x = some r → y = some r

theorem Below.refl (x : ExceptT ε Option α) : Below x x := fun _ h => h

theorem exists_of_bind {x : ExceptT ε Option α} {f : α → ExceptT ε Option β} {r : Except ε β}
    (h : (x >>= f) = some r) : ∃ r', x = some r' := by
  cases x with
  | none => cases h
  | some r' => exact ⟨r', rfl⟩

theorem Below.bind {x y : ExceptT ε Option α} {f g : α → ExceptT ε Option β} (hx : Below x y)
    (hf : ∀ a, Below (f a) (g a)) : Below (x >>= f) (y >>= g) := by
  intro r h
  obtain ⟨r', hr'⟩ := exists_of_bind h
  rw [hx r' hr']
  rw [hr'] at h
  cases r' with
  | error e => exact h
  | ok a => exact hf a r h

theorem Below.some_bind {x : Except ε α} {f g : α → ExceptT ε Option β}
    (h : ∀ a, x = .ok a → Below (f a) (g a)) :
    Below (ExceptT.mk (some x) >>= f) (ExceptT.mk (some x) >>= g) := by
  cases x with
  | error e => exact .refl _
  | ok a => exact h a rfl

theorem Below.mapM {f g : α → ExceptT ε Option β} {xs : List α}
    (each : ∀ x ∈ xs, Below (f x) (g x)) : Below (xs.mapM f) (xs.mapM g) := by
  induction xs with
  | nil => exact .refl _
  | cons x xs ih =>
    rw [List.forall_mem_cons] at each
    rw [List.mapM_cons, List.mapM_cons]
    exact each.1.bind fun y => (ih each.2).bind fun ys => .refl _

theorem Below.foldlM {f g : β → α → ExceptT ε Option β} {xs : List α} {start : β}
    (each : ∀ x ∈ xs, ∀ b, Below (f b x) (g b x)) :
    Below (xs.foldlM f start) (xs.foldlM g start) := by
  induction xs generalizing start with
  | nil => exact .refl _
  | cons x xs ih =>
    rw [List.forall_mem_cons] at each
    rw [List.foldlM_cons, List.foldlM_cons]
    exact (each.1 start).bind fun b => ih each.2

end Steps

open Steps

/-- Work on values as types at paths, in rounds, and what it is within a bound on the types met on
one value. -/
structure Rounds (τ ν π ε α : Type) where
  depth : ν → Nat
  /-- The type that a type hands a whole value on to. -/
  hop : ν → τ → Option τ
  /-- The types that hand values on. -/
  places : List τ
  round : (τ → ν → π → ExceptT ε Option α) → τ → ν → π → ExceptT ε Option α
  within : Nat → τ → ν → π → Except ε α
  value : τ → ν → π → Except ε α
  covers : ∀ v t t', hop v t = some t' → t ∈ places
  /-- A round asks for smaller values, and for the type that the value is handed on to. -/
  below : ∀ {work work' : τ → ν → π → ExceptT ε Option α} {t v path},
    (∀ w, depth w < depth v → ∀ t path, Below (work t w path) (work' t w path)) →
    (∀ t', hop v t = some t' → Below (work t' v path) (work' t' v path)) →
    Below (round work t v path) (round work' t v path)
  /-- It comes to something only if the type that the value is handed on to does. -/
  asks : ∀ {work : τ → ν → π → ExceptT ε Option α} {t v path r}, round work t v path = some r →
    ∀ {t'}, hop v t = some t' → ∃ r', work t' v path = some r'
  /-- It is one step of the work within a bound. -/
  step : ∀ {work : τ → ν → π → ExceptT ε Option α} {steps t v path},
    (∀ w, depth w < depth v → ∀ t path, work t w path = ExceptT.mk (some (value t w path))) →
    (∀ t', hop v t = some t' → work t' v path = ExceptT.mk (some (within steps t' v path))) →
    round work t v path = ExceptT.mk (some (within (steps + 1) t v path))
  whole : ∀ t v path, value t v path = within (places.length + 1) t v path

namespace Rounds

variable {τ ν π ε α : Type}

/-- At most so many rounds one inside the other. -/
def run (R : Rounds τ ν π ε α) : (rounds : Nat) → τ → ν → π → ExceptT ε Option α
  | 0, _, _, _ => Option.none
  | rounds + 1, t, v, path => R.round (R.run rounds) t v path

/-- More rounds than types can be met one inside the other without meeting one again for the same
value. -/
def bound (R : Rounds τ ν π ε α) (v : ν) : Nat := (R.places.length + 1) * (R.depth v + 1)

variable {R : Rounds τ ν π ε α} {t : τ} {v : ν} {path : π} {rounds more : Nat} {r : Except ε α}

/-- Where rounds come to something, the types that the value is handed on to come to an end. -/
theorem endsWithin_of_run (h : R.run rounds t v path = some r) :
    Chain.EndsWithin (R.hop v) R.places.length t := by
  suffices ends : Chain.EndsWithin (R.hop v) rounds t from ends.length_places (R.covers v)
  induction rounds generalizing t r with
  | zero => cases h
  | succ rounds ih =>
    intro t' next
    obtain ⟨r', inner⟩ := R.asks h next
    exact ih inner

theorem run_eq_none_of_circle (circle : Relation.TransGen (Chain.Step (R.hop v)) t t)
    (rounds : Nat) (path : π) : R.run rounds t v path = none := by
  cases run : R.run rounds t v path with
  | none => rfl
  | some r => exact absurd (endsWithin_of_run run) (Chain.not_endsWithin_of_circle circle _)

/-- The rounds for a value that is handed on over `n` more types leave enough for its parts. -/
theorem bound_part {w : ν} {n : Nat} (lt : R.depth w < R.depth v)
    (le : n + (R.places.length + 1) * R.depth v ≤ more) : R.bound w ≤ more :=
  Nat.le_trans (Nat.mul_le_mul_left _ lt) (Nat.le_trans (Nat.le_add_left _ _) le)

theorem lt_of_bound_le (le : R.bound v ≤ more) :
    R.places.length + (R.places.length + 1) * R.depth v < more := by
  rw [bound, Nat.mul_succ] at le
  omega

/-- What any number of rounds comes to, the bound on rounds comes to. -/
theorem run_bounded (h : R.run rounds t v path = some r) (le : R.bound v ≤ more) :
    R.run more t v path = some r := by
  induction depth : R.depth v using Nat.strong_induction_on
    generalizing v t path rounds r more with
  | h depth inner =>
    subst depth
    -- on one value, by induction on the types that it is still handed on to
    suffices walk : ∀ (n : Nat) (t : τ) (rounds more : Nat) (r : Except ε α),
        Chain.EndsWithin (R.hop v) n t → R.run rounds t v path = some r →
        n + (R.places.length + 1) * R.depth v < more → R.run more t v path = some r from
      walk R.places.length t rounds more r (endsWithin_of_run h) h (lt_of_bound_le le)
    intro n
    induction n using Nat.strong_induction_on with
    | h n ih =>
      intro t rounds more r ends h lt
      cases rounds with
      | zero => cases h
      | succ rounds =>
        obtain ⟨more, rfl⟩ := Nat.exists_eq_add_one_of_ne_zero (Nat.ne_zero_of_lt lt)
        refine R.below (fun w less t path r h => ?_) (fun t' next r h => ?_) r h
        · exact inner (R.depth w) less h (bound_part less (Nat.le_of_lt_succ lt)) rfl
        · obtain ⟨m, rfl, rest⟩ := ends.pred next
          exact ih m (Nat.lt_succ_self m) t' rounds more r rest h (by omega)

/-- A type whose rounds pass each value on comes to what the other type comes to. -/
theorem run_of_passes {t' : τ} (passes : ∀ work, R.round work t v path = work t' v path) :
    R.run (R.bound v) t v path = R.run (R.bound v) t' v path := by
  refine Option.ext fun r => ⟨fun h => ?_, fun h => ?_⟩
  · obtain ⟨rounds, eq⟩ := Nat.exists_eq_add_one_of_ne_zero
      (Nat.ne_zero_of_lt (lt_of_bound_le (Nat.le_refl (R.bound v))))
    rw [eq, run, passes] at h
    exact run_bounded h (Nat.le_refl _)
  · have more : R.run (R.bound v + 1) t v path = some r := (passes _).trans h
    exact run_bounded more (Nat.le_refl _)

/-- What rounds come to, the work within the bound is. -/
theorem value_of_run (h : R.run rounds t v path = some r) : R.value t v path = r := by
  induction depth : R.depth v using Nat.strong_induction_on
    generalizing v t path rounds r with
  | h depth inner =>
    subst depth
    -- as above; the bound left for this value is one more than the types it is still handed on to
    suffices walk : ∀ (n : Nat) (t : τ) (rounds : Nat) (r : Except ε α),
        Chain.EndsWithin (R.hop v) n t → R.run rounds t v path = some r →
        R.within (n + 1) t v path = r from
      (R.whole t v path).trans (walk _ t rounds r (endsWithin_of_run h) h)
    intro n
    induction n using Nat.strong_induction_on with
    | h n ih =>
      intro t rounds r ends h
      cases rounds with
      | zero => cases h
      | succ rounds =>
        classical
        -- smaller values done as a whole, and this one within what is left of the bound
        let work (t : τ) (w : ν) (path : π) : ExceptT ε Option α := ExceptT.mk <| some <|
          if R.depth w < R.depth v then R.value t w path else R.within n t v path
        have smaller (w : ν) (less : R.depth w < R.depth v) (t : τ) (path : π) :
            work t w path = ExceptT.mk (some (R.value t w path)) := by
          simp only [work, if_pos less]
        have same (t : τ) : work t v path = ExceptT.mk (some (R.within n t v path)) := by
          simp only [work, if_neg (Nat.lt_irrefl _)]
        have more : R.round work t v path = some r := by
          refine R.below (fun w less t path r h => ?_) (fun t' next r h => ?_) r h
          · rw [smaller w less, inner _ less h rfl]
            rfl
          · obtain ⟨m, rfl, rest⟩ := ends.pred next
            rw [same, ih m (Nat.lt_succ_self m) t' rounds r rest h]
            rfl
        rw [R.step smaller fun t' _ => same t'] at more
        exact Option.some.inj more

/-- Where the chain of types on a value ends, rounds come to the work within a bound. -/
theorem run_eq_within (inner : ∀ w, R.depth w < R.depth v → ∀ t path, ∀ more, R.bound w ≤ more →
      R.run more t w path = ExceptT.mk (some (R.value t w path)))
    {n : Nat} (ends : Chain.EndsWithin (R.hop v) n t)
    (lt : n + (R.places.length + 1) * R.depth v < rounds) :
    R.run rounds t v path = ExceptT.mk (some (R.within (n + 1) t v path)) := by
  induction n using Nat.strong_induction_on generalizing t rounds with
  | h n ih =>
    obtain ⟨rounds, rfl⟩ := Nat.exists_eq_add_one_of_ne_zero (Nat.ne_zero_of_lt lt)
    refine R.step (fun w less t path => ?_) fun t' next => ?_
    · exact inner w less t path rounds (bound_part less (Nat.le_of_lt_succ lt))
    · obtain ⟨m, rfl, rest⟩ := ends.pred next
      exact ih m (Nat.lt_succ_self m) rest (by omega)

/-- Where no type hands a value on to itself, rounds come to the work within the bound. -/
theorem run_eq_value (circles : ∀ v t, ¬Relation.TransGen (Chain.Step (R.hop v)) t t)
    (le : R.bound v ≤ rounds) : R.run rounds t v path = ExceptT.mk (some (R.value t v path)) := by
  induction depth : R.depth v using Nat.strong_induction_on generalizing v t path rounds with
  | h depth ih =>
    subst depth
    rw [R.whole]
    exact run_eq_within (fun w less t path more le => ih (R.depth w) less le rfl)
      (Chain.endsWithin_of_no_circle (R.covers v) (circles v) t) (lt_of_bound_le le)

/-- Work as one of the types that can hand values on always ends exactly if no type hands a value on
to itself. -/
theorem ends_iff {ι : Type} {named : ι → τ}
    (sources : ∀ v t t', R.hop v t = some t' → ∃ i, t = named i) (path : π) :
    (∀ i v, ∃ r, R.run (R.bound v) (named i) v path = some r) ↔
      ∀ v t, ¬Relation.TransGen (Chain.Step (R.hop v)) t t := by
  constructor
  · intro ends v t circle
    obtain ⟨next, step, -⟩ := Relation.TransGen.head'_iff.mp circle
    obtain ⟨i, rfl⟩ := sources v t next step
    obtain ⟨r, ended⟩ := ends i v
    rw [run_eq_none_of_circle circle] at ended
    cases ended
  · intro circles i v
    exact ⟨_, run_eq_value circles (Nat.le_refl _)⟩

end Rounds

end TypedArchive
