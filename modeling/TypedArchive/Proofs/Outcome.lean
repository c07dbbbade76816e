import Mathlib.Data.List.Forall2

/-! Successful outcomes of computations that may fail, taken apart step by step. -/

namespace TypedArchive.Outcome

variable {ε σ α β γ : Type}

theorem bind_eq_ok {x : Except ε α} {f : α → Except ε β} {b : β} :
    (x >>= f) = .ok b ↔ ∃ a, x = .ok a ∧ f a = .ok b := by
  cases x with
  | error e => simp [bind, Except.bind]
  | ok a => simp [bind, Except.bind]

theorem map_eq_ok {x : Except ε α} {f : α → β} {b : β} :
    (f <$> x) = .ok b ↔ ∃ a, x = .ok a ∧ f a = b := by
  cases x with
  | error e => simp [Functor.map, Except.map]
  | ok a => simp [Functor.map, Except.map]

theorem pure_eq_ok {a b : α} : (pure a : Except ε α) = .ok b ↔ a = b := by
  simp [pure, Except.pure]

theorem mapError_eq_ok {ε' : Type} {f : ε → ε'} {x : Except ε α} {a : α} :
    x.mapError f = .ok a ↔ x = .ok a := by
  cases x with
  | error e => simp [Except.mapError]
  | ok a' => simp [Except.mapError]

theorem exists_of_isOk {x : Except ε α} (h : x.isOk = true) : ∃ a, x = .ok a := by
  cases x with
  | error e => cases h
  | ok a => exact ⟨a, rfl⟩

theorem toOption_eq_some {x : Except ε α} {a : α} : x.toOption = some a ↔ x = .ok a := by
  cases x with
  | error e => simp [Except.toOption]
  | ok a' => simp [Except.toOption]

/-- A loop that collects results succeeds when each step does. -/
theorem mapM_eq_ok {f : α → Except ε β} {xs : List α} {ys : List β} :
    xs.mapM f = .ok ys ↔ List.Forall₂ (fun x y => f x = .ok y) xs ys := by
  induction xs generalizing ys with
  | nil =>
    rw [List.mapM_nil, pure_eq_ok, List.forall₂_nil_left_iff]
    exact eq_comm
  | cons x xs ih =>
    simp only [List.mapM_cons, bind_eq_ok, pure_eq_ok, ih, List.forall₂_cons_left_iff]
    constructor
    · rintro ⟨y, hy, rest, hrest, rfl⟩
      exact ⟨y, rest, hy, hrest, rfl⟩
    · rintro ⟨y, rest, hy, hrest, rfl⟩
      exact ⟨y, hy, rest, hrest, rfl⟩

theorem mapM_append_cons {f : α → Except ε β} {xs ys : List α} {x : α}
    {zs : List β} (h : (xs ++ x :: ys).mapM f = .ok zs) :
    ∃ front y back, zs = front ++ y :: back ∧ xs.mapM f = .ok front ∧ f x = .ok y ∧
      ys.mapM f = .ok back := by
  rw [List.mapM_append] at h
  obtain ⟨front, first, h⟩ := bind_eq_ok.mp h
  obtain ⟨rest, later, h⟩ := bind_eq_ok.mp h
  rw [List.mapM_cons] at later
  obtain ⟨y, middle, later⟩ := bind_eq_ok.mp later
  obtain ⟨back, last, later⟩ := bind_eq_ok.mp later
  cases later
  cases h
  exact ⟨front, y, back, rfl, first, middle, last⟩

theorem bind_eq_error {x : Except ε α} {f : α → Except ε β} {e : ε} :
    (x >>= f) = .error e ↔ x = .error e ∨ ∃ a, x = .ok a ∧ f a = .error e := by
  cases x with
  | error e' => simp [bind, Except.bind]
  | ok a => simp [bind, Except.bind]

/-- A loop that collects results fails as one of its steps does. -/
theorem exists_of_mapM_eq_error {f : α → Except ε β} {xs : List α} {e : ε}
    (h : xs.mapM f = .error e) : ∃ x ∈ xs, f x = .error e := by
  induction xs with
  | nil => cases h
  | cons x xs ih =>
    rw [List.mapM_cons] at h
    rcases bind_eq_error.mp h with first | ⟨y, -, h⟩
    · exact ⟨x, List.mem_cons_self, first⟩
    · rcases bind_eq_error.mp h with rest | ⟨ys, -, h⟩
      · obtain ⟨x', mem, fails⟩ := ih rest
        exact ⟨x', List.mem_cons_of_mem _ mem, fails⟩
      · cases h

/-- A loop fails as one of its steps does. -/
theorem exists_of_forM_eq_error {f : α → Except ε Unit} {xs : List α} {e : ε}
    (h : xs.forM f = .error e) : ∃ x ∈ xs, f x = .error e := by
  induction xs with
  | nil => cases h
  | cons x xs ih =>
    rcases bind_eq_error.mp h with first | ⟨_, -, rest⟩
    · exact ⟨x, List.mem_cons_self, first⟩
    · obtain ⟨x', mem, fails⟩ := ih rest
      exact ⟨x', List.mem_cons_of_mem _ mem, fails⟩

theorem forM_eq_ok {f : α → Except ε Unit} {xs : List α} :
    xs.forM f = .ok () ↔ ∀ x ∈ xs, f x = .ok () := by
  induction xs with
  | nil => exact iff_of_true rfl (List.forall_mem_nil _)
  | cons x xs ih =>
    rw [List.forall_mem_cons, ← ih]
    change (f x >>= fun _ => xs.forM f) = .ok () ↔ _
    rw [bind_eq_ok]
    exact ⟨fun ⟨_, first, rest⟩ => ⟨first, rest⟩, fun ⟨first, rest⟩ => ⟨_, first, rest⟩⟩

section Fault

variable {π ε' : Type} {place : ε → π} {place' : ε' → π}

/-- Where a computation fails; nowhere if it succeeds. -/
def fault (place : ε → π) : Except ε α → Option π
  | .ok _ => none
  | .error e => some (place e)

@[simp] theorem fault_ok (a : α) : fault place (.ok a : Except ε α) = none := rfl

@[simp] theorem fault_error (e : ε) : fault place (.error e : Except ε α) = some (place e) := rfl

theorem fault_eq_none {x : Except ε α} : fault place x = none ↔ x.isOk = true := by
  cases x <;> simp [Except.isOk, Except.toBool]

theorem fault_id_eq_some {x : Except ε α} {e : ε} : fault id x = some e ↔ x = .error e := by
  cases x with
  | error e' => simp
  | ok a => simp

@[simp] theorem fault_map (f : α → β) (x : Except ε α) : fault place (f <$> x) = fault place x := by
  cases x <;> rfl

@[simp] theorem fault_mapError (f : ε' → ε) (x : Except ε' α) :
    fault place (x.mapError f) = fault (fun e => place (f e)) x := by
  cases x <;> rfl

/-- A sequence fails as its first step does, else as the rest does. -/
theorem fault_bind {x : Except ε α} {f : α → Except ε β} {rest : Option π}
    (h : ∀ a, fault place (f a) = rest) : fault place (x >>= f) = (fault place x).or rest := by
  cases x with
  | error e => rfl
  | ok a => exact h a

theorem fault_bind_pure {x : Except ε α} {f : α → β} :
    fault place (x >>= fun a => pure (f a)) = fault place x :=
  (fault_bind fun a => fault_ok (f a)).trans Option.or_none

theorem findSome?_cons_or (f : α → Option β) (x : α) (xs : List α) :
    (x :: xs).findSome? f = (f x).or (xs.findSome? f) := by
  rw [List.findSome?_cons]
  cases f x <;> rfl

theorem findSome?_congr {f f' : α → Option β} {xs : List α} (each : ∀ x ∈ xs, f x = f' x) :
    xs.findSome? f = xs.findSome? f' := by
  induction xs with
  | nil => rfl
  | cons x xs ih =>
    rw [List.forall_mem_cons] at each
    rw [findSome?_cons_or, findSome?_cons_or, each.1, ih each.2]

/-- A loop that collects results fails as the first of its steps that does. -/
theorem fault_mapM (f : α → Except ε β) (xs : List α) :
    fault place (xs.mapM f) = xs.findSome? fun x => fault place (f x) := by
  induction xs with
  | nil => rfl
  | cons x xs ih =>
    rw [List.mapM_cons, findSome?_cons_or, ← ih]
    exact fault_bind fun y => fault_bind_pure

/-- A loop fails as the first of its steps that does, if what it has gathered does not count. -/
theorem fault_foldlM {f : β → α → Except ε β} {step : α → Option π}
    (h : ∀ b x, fault place (f b x) = step x) (xs : List α) (b : β) :
    fault place (xs.foldlM f b) = xs.findSome? step := by
  induction xs generalizing b with
  | nil => rfl
  | cons x xs ih =>
    rw [List.foldlM_cons, findSome?_cons_or, ← h b x]
    exact fault_bind fun b => ih b

end Fault

theorem mapM_eq_some {f : α → Option β} {xs : List α} {ys : List β} :
    xs.mapM f = some ys ↔ List.Forall₂ (fun x y => f x = some y) xs ys := by
  induction xs generalizing ys with
  | nil =>
    rw [List.mapM_nil, List.forall₂_nil_left_iff, Option.pure_def, Option.some.injEq]
    exact eq_comm
  | cons x xs ih =>
    simp only [List.mapM_cons, Option.bind_eq_bind, Option.bind_eq_some_iff, Option.pure_def,
      Option.some.injEq, ih, List.forall₂_cons_left_iff]
    constructor
    · rintro ⟨y, hy, rest, hrest, rfl⟩
      exact ⟨y, rest, hy, hrest, rfl⟩
    · rintro ⟨y, rest, hy, hrest, rfl⟩
      exact ⟨y, hy, rest, hrest, rfl⟩

theorem forall₂_comp {R : α → β → Prop} {S : β → γ → Prop} {xs : List α} {ys : List β}
    {zs : List γ} (h : List.Forall₂ R xs ys) (h' : List.Forall₂ S ys zs) :
    List.Forall₂ (fun x z => ∃ y, R x y ∧ S y z) xs zs := by
  induction h generalizing zs with
  | nil =>
    cases h'
    exact .nil
  | cons first _ ih =>
    cases h' with
    | cons first' rest' => exact .cons ⟨_, first, first'⟩ (ih rest')

theorem exists_forall₂ {R : α → β → Prop} {xs : List α} (each : ∀ x ∈ xs, ∃ y, R x y) :
    ∃ ys, List.Forall₂ R xs ys := by
  induction xs with
  | nil => exact ⟨[], .nil⟩
  | cons x xs ih =>
    rw [List.forall_mem_cons] at each
    obtain ⟨y, hy⟩ := each.1
    obtain ⟨ys, rest⟩ := ih each.2
    exact ⟨y :: ys, .cons hy rest⟩

theorem forall₂_concat {R : α → β → Prop} {xs : List α} {x : α} {ys : List β} :
    List.Forall₂ R (xs ++ [x]) ys ↔
      ∃ init y, List.Forall₂ R xs init ∧ R x y ∧ ys = init ++ [y] := by
  constructor
  · intro h
    induction xs generalizing ys with
    | nil =>
      obtain ⟨y, rest, hy, hrest, rfl⟩ := List.forall₂_cons_left_iff.mp h
      rw [List.forall₂_nil_left_iff] at hrest
      subst hrest
      exact ⟨[], y, .nil, hy, rfl⟩
    | cons x' xs ih =>
      obtain ⟨y', rest, hy', hrest, rfl⟩ := List.forall₂_cons_left_iff.mp h
      obtain ⟨init, y, hinit, hy, rfl⟩ := ih hrest
      exact ⟨y' :: init, y, .cons hy' hinit, hy, rfl⟩
  · rintro ⟨init, y, hinit, hy, rfl⟩
    exact List.rel_append hinit (.cons hy .nil)

/-- Two lists agree under two functions when they do place by place. -/
theorem map_eq_map_iff {f : α → γ} {g : β → γ} {xs : List α} {ys : List β} :
    xs.map f = ys.map g ↔ xs.length = ys.length ∧ ∀ p ∈ xs.zip ys, f p.1 = g p.2 := by
  rw [← List.forall₂_eq_eq_eq, List.forall₂_map_left_iff, List.forall₂_map_right_iff,
    List.forall₂_iff_zip]
  simp only [Prod.forall]

theorem eq_of_map_eq_self {f : α → α} {xs : List α} (h : xs.map f = xs) : ∀ x ∈ xs, f x = x :=
  List.map_inj_left.mp (h.trans (List.map_id xs).symm)

theorem eq_of_mem_zip {f : α → γ} {g : β → γ} {xs : List α} {ys : List β}
    (eq : xs.map f = ys.map g) {p : α × β} (mem : p ∈ xs.zip ys) : f p.1 = g p.2 :=
  (map_eq_map_iff.mp eq).2 p mem

theorem length_of_map_eq {f : α → γ} {g : β → γ} {xs : List α} {ys : List β}
    (eq : xs.map f = ys.map g) : xs.length = ys.length :=
  (map_eq_map_iff.mp eq).1

theorem exists_mem_zip {xs : List α} {ys : List β} (length : xs.length = ys.length) {x : α}
    (mem : x ∈ xs) : ∃ y, (x, y) ∈ xs.zip ys := by
  rw [← List.map_fst_zip (Nat.le_of_eq length)] at mem
  obtain ⟨⟨_, y⟩, pair, rfl⟩ := List.mem_map.mp mem
  exact ⟨y, pair⟩

theorem exists_mem_zip_right {xs : List α} {ys : List β} (length : xs.length = ys.length) {y : β}
    (mem : y ∈ ys) : ∃ x, (x, y) ∈ xs.zip ys := by
  rw [← List.map_snd_zip (Nat.le_of_eq length.symm)] at mem
  obtain ⟨⟨x, _⟩, pair, rfl⟩ := List.mem_map.mp mem
  exact ⟨x, pair⟩

theorem forall₂_zipIdx {R : α × Nat → β → Prop} {xs : List α} {ys : List β}
    (length : xs.length = ys.length) (each : ∀ p ∈ xs.zip ys, ∀ i, R (p.1, i) p.2) (start : Nat) :
    List.Forall₂ R (xs.zipIdx start) ys := by
  induction xs generalizing ys start with
  | nil =>
    rw [List.length_eq_zero_iff.mp length.symm]
    exact .nil
  | cons x xs ih =>
    obtain ⟨y, ys, rfl⟩ := List.exists_cons_of_length_eq_add_one length.symm
    rw [List.zip_cons_cons, List.forall_mem_cons] at each
    exact .cons (each.1 start) (ih (Nat.succ.inj length) each.2 _)

theorem mem_of_lookup [BEq α] [LawfulBEq α] {pairs : List (α × β)} {a : α} {b : β}
    (h : pairs.lookup a = some b) : (a, b) ∈ pairs := by
  obtain ⟨before, after, eq, -⟩ := List.lookup_eq_some_iff.mp h
  rw [eq]
  exact List.mem_append_right _ List.mem_cons_self

theorem bind_run_eq_ok {x : StateT σ (Except ε) α} {f : α → StateT σ (Except ε) β} {s : σ}
    {r : β × σ} :
    (x >>= f) s = .ok r ↔ ∃ a s', x s = .ok (a, s') ∧ f a s' = .ok r := by
  change (x s >>= fun p => f p.1 p.2) = .ok r ↔ _
  rw [bind_eq_ok]
  constructor
  · rintro ⟨⟨a, s'⟩, hx, hf⟩
    exact ⟨a, s', hx, hf⟩
  · rintro ⟨a, s', hx, hf⟩
    exact ⟨(a, s'), hx, hf⟩

theorem map_run_eq_ok {x : StateT σ (Except ε) α} {f : α → β} {s s' : σ} {b : β} :
    (f <$> x) s = .ok (b, s') ↔ ∃ a, x s = .ok (a, s') ∧ f a = b := by
  change ((x s) >>= fun p => pure (f p.1, p.2)) = .ok (b, s') ↔ _
  rw [bind_eq_ok]
  constructor
  · rintro ⟨⟨a, s₁⟩, hx, hf⟩
    cases hf
    exact ⟨a, hx, rfl⟩
  · rintro ⟨a, hx, rfl⟩
    exact ⟨(a, s'), hx, rfl⟩

/-- A result that is wrapped twice before it is used. -/
theorem bind_map_map_run_eq_ok {δ : Type} {x : StateT σ (Except ε) α} {f : α → β} {f' : β → γ}
    {k : γ → StateT σ (Except ε) δ} {s : σ} {r : δ × σ} :
    ((f' <$> f <$> x) >>= k) s = .ok r ↔ ∃ a s', x s = .ok (a, s') ∧ k (f' (f a)) s' = .ok r := by
  rw [bind_map_left, bind_map_left, bind_run_eq_ok]

theorem pure_run_eq_ok {s : σ} {a : α} {r : α × σ} :
    (pure a : StateT σ (Except ε) α) s = .ok r ↔ (a, s) = r := by
  change (pure (a, s) : Except ε (α × σ)) = .ok r ↔ _
  exact pure_eq_ok

theorem lift_run_eq_ok {x : Except ε α} {s s' : σ} {a : α} :
    (liftM x : StateT σ (Except ε) α) s = .ok (a, s') ↔ x = .ok a ∧ s = s' := by
  change (x >>= fun a => pure (a, s)) = .ok (a, s') ↔ _
  rw [bind_eq_ok]
  constructor
  · rintro ⟨b, hx, hb⟩
    cases hb
    exact ⟨hx, rfl⟩
  · rintro ⟨hx, rfl⟩
    exact ⟨a, hx, rfl⟩

theorem throw_run_ne_ok {s : σ} {e : ε} {r : α × σ} :
    (throw e : StateT σ (Except ε) α) s ≠ .ok r := by
  intro h
  cases h

theorem bind_run_eq_error {x : StateT σ (Except ε) α} {f : α → StateT σ (Except ε) β} {s : σ}
    {e : ε} :
    (x >>= f) s = .error e ↔ x s = .error e ∨ ∃ a s', x s = .ok (a, s') ∧ f a s' = .error e := by
  change (x s >>= fun p => f p.1 p.2) = .error e ↔ _
  rw [bind_eq_error, Prod.exists]

/-- A loop fails as the first of its steps that fails, after those before it. -/
theorem forM_run_eq_error {f : α → StateT σ (Except ε) Unit} {xs : List α} {s : σ} {e : ε} :
    xs.forM f s = .error e ↔ ∃ before x after u s', xs = before ++ x :: after ∧
      before.forM f s = .ok (u, s') ∧ f x s' = .error e := by
  have step (x : α) (xs : List α) : (x :: xs).forM f = (f x >>= fun _ => xs.forM f) := rfl
  induction xs generalizing s with
  | nil =>
    refine iff_of_false nofun ?_
    rintro ⟨before, x, after, u, s', split, -⟩
    exact List.append_ne_nil_of_right_ne_nil before (List.cons_ne_nil x after) split.symm
  | cons y ys ih =>
    rw [step, bind_run_eq_error]
    constructor
    · rintro (first | ⟨u, s₁, first, later⟩)
      · exact ⟨[], y, ys, (), s, rfl, rfl, first⟩
      · obtain ⟨before, x, after, u', s', rfl, earlier, fails⟩ := ih.mp later
        refine ⟨y :: before, x, after, u', s', rfl, ?_, fails⟩
        rw [step]
        exact bind_run_eq_ok.mpr ⟨u, s₁, first, earlier⟩
    · rintro ⟨before, x, after, u, s', split, earlier, fails⟩
      cases before with
      | nil =>
        cases earlier
        cases split
        exact .inl fails
      | cons y' before =>
        obtain ⟨rfl, rfl⟩ := List.cons.inj split
        rw [step] at earlier
        obtain ⟨u', s₁, first, earlier⟩ := bind_run_eq_ok.mp earlier
        exact .inr ⟨u', s₁, first, ih.mpr ⟨before, x, after, u, s', rfl, earlier, fails⟩⟩

end TypedArchive.Outcome
