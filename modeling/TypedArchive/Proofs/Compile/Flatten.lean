import Mathlib.Logic.Relation
import TypedArchive.Compile.Union
import TypedArchive.Proofs.Assoc
import TypedArchive.Proofs.Outcome

/-! Flattening a union finds exactly the types that its branches lead to through pending unions, each
of them once. It ends whether or not the unions lead back to one another. -/

namespace TypedArchive.Compile

/-- The pending union that a type names, and its branches. -/
def inner? (unions : Branches) (t : TypeRef) : Option (String × List TypeRef) :=
  t.asNamed?.bind fun name => (unions.lookup name).map fun inner => (name, inner)

theorem inner?_eq_some {unions : Branches} {t : TypeRef} {name : String} {inner : List TypeRef} :
    inner? unions t = some (name, inner) ↔ t = .named name ∧ unions.lookup name = some inner := by
  cases t with
  | named other =>
    simp only [inner?, TypeRef.asNamed?, Option.bind_some, Option.map_eq_some_iff, Prod.mk.injEq,
      TypeRef.named.injEq]
    constructor
    · rintro ⟨_, found, rfl, rfl⟩
      exact ⟨rfl, found⟩
    · rintro ⟨rfl, found⟩
      exact ⟨inner, found, rfl, rfl⟩
  | _ => simp [inner?, TypeRef.asNamed?]

/-- The types that branches lead to. -/
inductive Leaf (unions : Branches) : List TypeRef → TypeRef → Prop
  | here {branches : List TypeRef} {t : TypeRef} (mem : t ∈ branches)
      (plain : inner? unions t = none) : Leaf unions branches t
  | inside {branches inner : List TypeRef} {t leaf : TypeRef} {name : String} (mem : t ∈ branches)
      (union : inner? unions t = some (name, inner)) (h : Leaf unions inner leaf) :
      Leaf unions branches leaf

theorem Leaf.subset {unions : Branches} {branches more : List TypeRef} {t : TypeRef}
    (h : Leaf unions branches t) (sub : branches ⊆ more) : Leaf unions more t := by
  cases h with
  | here mem plain => exact .here (sub mem) plain
  | inside mem union h => exact .inside (sub mem) union h

section Equations

variable {unions : Branches} {depth : Nat} {t : TypeRef} {rest : List TypeRef} {seen : List String}
  {leaves : List TypeRef} {name : String} {inner : List TypeRef}

theorem flattenInto_plain (plain : inner? unions t = none) :
    flattenInto unions (depth + 1) (t :: rest) seen leaves =
      flattenInto unions (depth + 1) rest seen (if t ∈ leaves then leaves else leaves ++ [t]) := by
  rw [inner?] at plain
  rw [flattenInto, flattenInto, List.foldl_cons]
  simp only [plain]
  split <;> rfl

theorem flattenInto_seen (union : inner? unions t = some (name, inner)) (mem : name ∈ seen) :
    flattenInto unions (depth + 1) (t :: rest) seen leaves =
      flattenInto unions (depth + 1) rest seen leaves := by
  rw [inner?] at union
  rw [flattenInto, flattenInto, List.foldl_cons]
  simp only [union, if_pos mem]

theorem flattenInto_fresh (union : inner? unions t = some (name, inner)) (fresh : name ∉ seen) :
    flattenInto unions (depth + 1) (t :: rest) seen leaves =
      flattenInto unions (depth + 1) rest (flattenInto unions depth inner (name :: seen) leaves).1
        (flattenInto unions depth inner (name :: seen) leaves).2 := by
  rw [inner?] at union
  rw [flattenInto, flattenInto, List.foldl_cons]
  simp only [union, if_neg fresh]

end Equations

theorem flattenInto_sound {unions : Branches} {depth : Nat} {branches : List TypeRef}
    {seen : List String} {leaves : List TypeRef} {t : TypeRef}
    (h : t ∈ (flattenInto unions depth branches seen leaves).2) :
    t ∈ leaves ∨ Leaf unions branches t := by
  induction depth generalizing branches seen leaves with
  | zero => exact Or.inl h
  | succ depth deeper =>
    induction branches generalizing seen leaves with
    | nil => exact Or.inl h
    | cons b rest ih =>
      have later (h : Leaf unions rest t) : Leaf unions (b :: rest) t :=
        h.subset (List.subset_cons_self _ _)
      cases union : inner? unions b with
      | none =>
        rw [flattenInto_plain union] at h
        rcases ih h with mem | leaf
        · split at mem
          · exact Or.inl mem
          · rcases List.mem_append.mp mem with mem | mem
            · exact Or.inl mem
            · cases List.mem_singleton.mp mem
              exact Or.inr (.here List.mem_cons_self union)
        · exact Or.inr (later leaf)
      | some found =>
        obtain ⟨name, inner⟩ := found
        by_cases mem : name ∈ seen
        · rw [flattenInto_seen union mem] at h
          exact (ih h).imp_right later
        · rw [flattenInto_fresh union mem] at h
          rcases ih h with mem | leaf
          · exact (deeper mem).imp_right fun leaf => .inside List.mem_cons_self union leaf
          · exact Or.inr (later leaf)

/-- A branch has been dealt with: it is among the leaves, or the union that it names was entered. -/
def Settled (unions : Branches) (seen : List String) (leaves : List TypeRef) (t : TypeRef) : Prop :=
  match inner? unions t with
  | some (name, _) => name ∈ seen
  | none => t ∈ leaves

theorem Settled.mono {unions : Branches} {seen seen' : List String} {leaves leaves' : List TypeRef}
    {t : TypeRef} (h : Settled unions seen leaves t) (seenSub : seen ⊆ seen')
    (leavesSub : leaves ⊆ leaves') : Settled unions seen' leaves' t := by
  rw [Settled] at h ⊢
  split at h
  · exact seenSub h
  · exact leavesSub h

/-- The number of unions that have not been entered. -/
def unseen (unions : Branches) (seen : List String) : Nat :=
  (unions.filter fun p => p.1 ∉ seen).length

theorem unseen_mono (unions : Branches) {seen seen' : List String} (sub : seen ⊆ seen') :
    unseen unions seen' ≤ unseen unions seen := by
  refine (List.monotone_filter_right unions fun p fresh => ?_).length_le
  rw [decide_eq_true_eq] at fresh ⊢
  exact fun mem => fresh (sub mem)

theorem unseen_lt {unions : Branches} {seen : List String} {name : String} {inner : List TypeRef}
    (found : unions.lookup name = some inner) (fresh : name ∉ seen) :
    unseen unions (name :: seen) < unseen unions seen := by
  have mem : (name, inner) ∈ unions.filter fun p => p.1 ∉ seen :=
    List.mem_filter.mpr ⟨Outcome.mem_of_lookup found, by simpa using fresh⟩
  have split : (unions.filter fun p => p.1 ∉ name :: seen) =
      (unions.filter fun p => p.1 ∉ seen).filter fun p => p.1 ≠ name := by
    rw [List.filter_filter]
    refine List.filter_congr fun p _ => ?_
    simp [not_or]
  rw [unseen, split]
  exact List.length_filter_lt_length_iff_exists.mpr ⟨_, mem, by simp⟩

/-- What has been found from some branches on: nothing is lost, every branch is settled, and so are
the branches of every union that was entered. -/
structure Settles (unions : Branches) (branches : List TypeRef) (seen : List String)
    (leaves : List TypeRef) (found : List String × List TypeRef) : Prop where
  seenSub : seen ⊆ found.1
  leavesSub : leaves ⊆ found.2
  settled : ∀ t ∈ branches, Settled unions found.1 found.2 t
  entered : ∀ name ∈ found.1, name ∉ seen → ∀ inner, unions.lookup name = some inner →
    ∀ t ∈ inner, Settled unions found.1 found.2 t

section Settles

variable {unions : Branches} {rest inner : List TypeRef} {seen : List String}
  {leaves leaves' : List TypeRef} {found : List String × List TypeRef} {t : TypeRef}
  {name : String}

theorem Settles.plain (h : Settles unions rest seen leaves' found) (sub : leaves ⊆ leaves')
    (added : t ∈ leaves') (union : inner? unions t = none) :
    Settles unions (t :: rest) seen leaves found := by
  refine ⟨h.seenSub, List.Subset.trans sub h.leavesSub, ?_, h.entered⟩
  refine List.forall_mem_cons.mpr ⟨?_, h.settled⟩
  rw [Settled, union]
  exact h.leavesSub added

theorem Settles.skip (h : Settles unions rest seen leaves found)
    (union : inner? unions t = some (name, inner)) (mem : name ∈ seen) :
    Settles unions (t :: rest) seen leaves found := by
  refine ⟨h.seenSub, h.leavesSub, List.forall_mem_cons.mpr ⟨?_, h.settled⟩, h.entered⟩
  rw [Settled, union]
  exact h.seenSub mem

theorem Settles.enter {inside : List String × List TypeRef}
    (h : Settles unions inner (name :: seen) leaves inside)
    (h' : Settles unions rest inside.1 inside.2 found)
    (union : inner? unions t = some (name, inner)) :
    Settles unions (t :: rest) seen leaves found := by
  refine ⟨?_, List.Subset.trans h.leavesSub h'.leavesSub, ?_, ?_⟩
  · exact List.Subset.trans (List.subset_cons_self _ _) (List.Subset.trans h.seenSub h'.seenSub)
  · refine List.forall_mem_cons.mpr ⟨?_, h'.settled⟩
    rw [Settled, union]
    exact h'.seenSub (h.seenSub List.mem_cons_self)
  · intro other mem fresh inner' lookup t' ht
    by_cases before : other ∈ inside.1
    · by_cases eq : other = name
      · subst eq
        cases (inner?_eq_some.mp union).2.symm.trans lookup
        exact (h.settled t' ht).mono h'.seenSub h'.leavesSub
      · have fresh := List.not_mem_cons_of_ne_of_not_mem eq fresh
        exact (h.entered other before fresh inner' lookup t' ht).mono h'.seenSub h'.leavesSub
    · exact h'.entered other mem before inner' lookup t' ht

end Settles

theorem flattenInto_settles {unions : Branches} {depth : Nat} {branches : List TypeRef}
    {seen : List String} {leaves : List TypeRef} (enough : unseen unions seen < depth) :
    Settles unions branches seen leaves (flattenInto unions depth branches seen leaves) := by
  induction depth generalizing branches seen leaves with
  | zero => exact absurd enough (Nat.not_lt_zero _)
  | succ depth deeper =>
    induction branches generalizing seen leaves with
    | nil =>
      exact ⟨List.Subset.refl _, List.Subset.refl _, List.forall_mem_nil _,
        fun _ mem fresh => absurd mem fresh⟩
    | cons b rest ih =>
      cases union : inner? unions b with
      | none =>
        rw [flattenInto_plain union]
        refine (ih enough).plain ?_ ?_ union
        · split
          · exact List.Subset.refl _
          · exact List.subset_append_left _ _
        · split
          · assumption
          · exact List.mem_append_right _ List.mem_cons_self
      | some pair =>
        obtain ⟨name, inner⟩ := pair
        by_cases mem : name ∈ seen
        · rw [flattenInto_seen union mem]
          exact (ih enough).skip union mem
        · rw [flattenInto_fresh union mem]
          have less := unseen_lt (inner?_eq_some.mp union).2 mem
          have inside := @deeper inner (name :: seen) leaves (by omega)
          have sub := List.Subset.trans (List.subset_cons_self _ _) inside.seenSub
          have less' := unseen_mono unions sub
          exact inside.enter (ih (by omega)) union

/-- Flattening a pending union gives its leaves, all of them and no others. -/
theorem mem_flattenBranches {unions : Branches} {name : String} {branches : List TypeRef}
    (pending : unions.lookup name = some branches) {t : TypeRef} :
    t ∈ flattenBranches unions name branches ↔ Leaf unions branches t := by
  rw [flattenBranches]
  constructor
  · intro h
    exact (flattenInto_sound h).resolve_left List.not_mem_nil
  · intro leaf
    have enough : unseen unions [name] < unions.length + 1 :=
      Nat.lt_succ_of_le (List.length_filter_le _ _)
    obtain ⟨-, -, settled, entered⟩ := @flattenInto_settles _ _ branches _ [] enough
    generalize flattenInto unions (unions.length + 1) branches [name] [] = found at settled entered
    -- Every union that was entered is settled, the first one included.
    have all (other) (mem : other ∈ found.1) (inner) (lookup : unions.lookup other = some inner) :
        ∀ t ∈ inner, Settled unions found.1 found.2 t := by
      by_cases eq : other = name
      · subst eq
        cases pending.symm.trans lookup
        exact settled
      · exact entered other mem (by simpa using eq) inner lookup
    clear pending entered
    induction leaf with
    | here mem plain =>
      have h := settled _ mem
      rwa [Settled, plain] at h
    | inside mem union _ ih =>
      have h := settled _ mem
      rw [Settled, union] at h
      exact ih (all _ h _ (inner?_eq_some.mp union).2)

/-- Flattens a union as before, but has no result when the depth runs out. -/
def flattenWithin (unions : Branches) :
    (depth : Nat) → List TypeRef → (seen : List String) → (leaves : List TypeRef) →
      Option (List String × List TypeRef)
  | 0, _, _, _ => none
  | depth + 1, branches, seen, leaves =>
    branches.foldlM (fun (seen, leaves) t =>
      match inner? unions t with
      | some (name, inner) =>
        if name ∈ seen then some (seen, leaves)
        else flattenWithin unions depth inner (name :: seen) leaves
      | none => some (seen, if t ∈ leaves then leaves else leaves ++ [t]))
      (seen, leaves)

theorem flattenWithin_eq {unions : Branches} {depth : Nat} {branches : List TypeRef}
    {seen : List String} {leaves : List TypeRef} (enough : unseen unions seen < depth) :
    flattenWithin unions depth branches seen leaves =
      some (flattenInto unions depth branches seen leaves) := by
  induction depth generalizing branches seen leaves with
  | zero => exact absurd enough (Nat.not_lt_zero _)
  | succ depth deeper =>
    induction branches generalizing seen leaves with
    | nil => rfl
    | cons b rest ih =>
      rw [flattenWithin, List.foldlM_cons]
      cases union : inner? unions b with
      | none =>
        rw [flattenInto_plain union]
        exact ih enough
      | some pair =>
        obtain ⟨name, inner⟩ := pair
        by_cases mem : name ∈ seen
        · rw [flattenInto_seen union mem]
          simp only [if_pos mem]
          exact ih enough
        · rw [flattenInto_fresh union mem]
          have less := unseen_lt (inner?_eq_some.mp union).2 mem
          have inside : unseen unions (name :: seen) < depth := by omega
          have grown := (@flattenInto_settles _ _ inner _ leaves inside).seenSub
          have less' := unseen_mono unions (List.Subset.trans (List.subset_cons_self _ _) grown)
          simp only [if_neg mem, deeper inside]
          exact ih (by omega)

theorem flattenWithin_mono {unions : Branches} {depth more : Nat} {branches : List TypeRef}
    {seen : List String} {leaves : List TypeRef} {found : List String × List TypeRef}
    (le : depth ≤ more) (h : flattenWithin unions depth branches seen leaves = some found) :
    flattenWithin unions more branches seen leaves = some found := by
  induction depth generalizing more branches seen leaves found with
  | zero => cases h
  | succ depth deeper =>
    obtain ⟨more, rfl⟩ := Nat.exists_eq_add_of_le' le
    rw [← Nat.add_assoc, flattenWithin]
    rw [flattenWithin] at h
    induction branches generalizing seen leaves with
    | nil => exact h
    | cons b rest ih =>
      rw [List.foldlM_cons, Option.bind_eq_bind, Option.bind_eq_some_iff] at h ⊢
      obtain ⟨next, step, h⟩ := h
      refine ⟨next, ?_, ih h⟩
      cases union : inner? unions b with
      | none => simpa only [union] using step
      | some pair =>
        simp only [union] at step ⊢
        split at step
        · next mem => rwa [if_pos mem]
        · next fresh =>
          rw [if_neg fresh]
          exact deeper (Nat.le_add_left depth more) step

/-- No type is found twice. -/
theorem flattenInto_nodup {unions : Branches} {depth : Nat} {branches : List TypeRef}
    {seen : List String} {leaves : List TypeRef} (distinct : leaves.Nodup) :
    (flattenInto unions depth branches seen leaves).2.Nodup := by
  induction depth generalizing branches seen leaves with
  | zero => exact distinct
  | succ depth deeper =>
    induction branches generalizing seen leaves with
    | nil => exact distinct
    | cons b rest ih =>
      cases union : inner? unions b with
      | none =>
        rw [flattenInto_plain union]
        apply ih
        split
        · exact distinct
        · next fresh =>
          rw [← List.concat_eq_append]
          exact distinct.concat fresh
      | some pair =>
        obtain ⟨name, inner⟩ := pair
        by_cases mem : name ∈ seen
        · rw [flattenInto_seen union mem]
          exact ih distinct
        · rw [flattenInto_fresh union mem]
          exact ih (deeper distinct)

section Reachable

variable {unions : Branches} {name : String} {branches : List TypeRef} {t : TypeRef}

theorem inner?_eq_none : inner? unions t = none ↔
    ∀ name, t = .named name → unions.lookup name = none := by
  cases t with
  | named name => simp [inner?, TypeRef.asNamed?]
  | _ => simp [inner?, TypeRef.asNamed?]

/-- A union has a branch that is another name. -/
def BranchesTo (unions : Branches) (name next : String) : Prop :=
  ∃ branches, unions.lookup name = some branches ∧ TypeRef.named next ∈ branches

/-- The branches of a union lead to the types that are no unions among the branches of the unions
that are reached from it. -/
theorem leaf_iff (pending : unions.lookup name = some branches) :
    Leaf unions branches t ↔ inner? unions t = none ∧ ∃ other inner,
      Relation.ReflTransGen (BranchesTo unions) name other ∧
        unions.lookup other = some inner ∧ t ∈ inner := by
  constructor
  · intro leaf
    induction leaf generalizing name with
    | here mem plain => exact ⟨plain, name, _, .refl, pending, mem⟩
    | @inside branches inner b leaf next mem union _ ih =>
      obtain ⟨rfl, lookup⟩ := inner?_eq_some.mp union
      obtain ⟨plain, other, inner, chain, found, mem'⟩ := ih lookup
      exact ⟨plain, other, inner, chain.head ⟨branches, pending, mem⟩, found, mem'⟩
  · rintro ⟨plain, other, inner, chain, found, mem⟩
    induction chain using Relation.ReflTransGen.head_induction_on generalizing branches with
    | refl =>
      cases pending.symm.trans found
      exact .here mem plain
    | @head name next step chain ih =>
      obtain ⟨branches', lookup, branch⟩ := step
      cases pending.symm.trans lookup
      -- the next name is that of a union, since the chain ends at one
      have union : ∃ inner, unions.lookup next = some inner := by
        rcases Relation.ReflTransGen.cases_head chain with rfl | ⟨_, ⟨inner, lookup, -⟩, -⟩
        · exact ⟨inner, found⟩
        · exact ⟨inner, lookup⟩
      obtain ⟨inner', lookup'⟩ := union
      exact .inside branch (inner?_eq_some.mpr ⟨rfl, lookup'⟩) (ih lookup')

/-- Flattening a pending union ends however deep it may go. It gives the types, each of them once,
that are no pending unions and are branches of the union or of one that it reaches. -/
theorem flattenBranches_exact (pending : unions.lookup name = some branches) :
    (∃ seen, ∀ more, flattenWithin unions (unions.length + 1 + more) branches [name] [] =
      some (seen, flattenBranches unions name branches)) ∧
    (flattenBranches unions name branches).Nodup ∧
    ∀ t, t ∈ flattenBranches unions name branches ↔
      (∀ other, t = .named other → unions.lookup other = none) ∧ ∃ other inner,
        Relation.ReflTransGen (BranchesTo unions) name other ∧
          unions.lookup other = some inner ∧ t ∈ inner := by
  refine ⟨?_, flattenInto_nodup List.nodup_nil, fun t => ?_⟩
  · have few : unseen unions [name] < unions.length + 1 :=
      Nat.lt_succ_of_le (List.length_filter_le _ _)
    have ends := @flattenWithin_eq unions _ branches _ [] few
    exact ⟨_, fun more => flattenWithin_mono (Nat.le_add_right _ more) ends⟩
  · rw [mem_flattenBranches pending, leaf_iff pending, inner?_eq_none]

end Reachable

/-- Two unions that are branches of each other, with a branch in common. -/
theorem flattenBranches_exact_mutual :
    let unions : Branches := [("Outer", [.named "Shape", .named "Text"]),
      ("Shape", [.named "Rect", .named "Oval", .named "Outer", .named "Text"])]
    let leaves : List TypeRef := [.named "Rect", .named "Oval", .named "Text"]
    unions.lookup "Outer" = some [.named "Shape", .named "Text"] ∧
      (∃ seen, ∀ more, flattenWithin unions (3 + more) [.named "Shape", .named "Text"] ["Outer"] [] =
        some (seen, leaves)) ∧
      leaves.Nodup ∧ Relation.ReflTransGen (BranchesTo unions) "Outer" "Shape" ∧
      ∀ t, t ∈ leaves ↔ (∀ other, t = .named other → unions.lookup other = none) ∧
        ∃ other inner, Relation.ReflTransGen (BranchesTo unions) "Outer" other ∧
          unions.lookup other = some inner ∧ t ∈ inner := by
  intro unions leaves
  have pending : unions.lookup "Outer" = some [.named "Shape", .named "Text"] := rfl
  have flat : flattenBranches unions "Outer" [.named "Shape", .named "Text"] = leaves := by decide
  obtain ⟨ends, distinct, exact⟩ := flattenBranches_exact pending
  rw [flat] at ends distinct exact
  exact ⟨pending, ends, distinct, .single ⟨_, pending, List.mem_cons_self⟩, exact⟩

end TypedArchive.Compile
