import TypedArchive.Proofs.Compile.Rules
import TypedArchive.Proofs.Compile.TypeName
import TypedArchive.Proofs.Outcome

/-! The invariant of compilation. A name that was given out is open until its entry is made or its
union is queued, and what is made follows the rules. -/

namespace TypedArchive.Compile

/-- What has become of a name that a node owns. -/
inductive Status (g : Graph) (opened : List String) (s : State) (i : Nat) (name : String) : Prop
  | opened (mem : name ∈ opened) (entry : s.catalog.get? name = none)
      (queue : name ∉ s.pending.map PendingUnion.name)
  | entered {e : Entry} (closed : name ∉ opened) (entry : s.catalog.get? name = some e)
      (named : e.name = name) (queue : name ∉ s.pending.map PendingUnion.name)
      (defines : Defines g s.names i e.type)
  | queued {u : PendingUnion} (closed : name ∉ opened) (entry : s.catalog.get? name = none)
      (mem : u ∈ s.pending) (named : u.name = name) (owner : u.node = i)
      (defers : Defers g s.names i u.branches)

/-- The state of compilation while some names are open. -/
structure Inv (g : Graph) (opened : List String) (s : State) : Prop where
  taken : s.taken = s.names.map Prod.snd
  distinct : s.taken.Nodup
  sorted : s.catalog.entries.Sorted
  openedOnce : opened.Nodup
  queuedOnce : (s.pending.map PendingUnion.name).Nodup
  openedTaken : ∀ name ∈ opened, name ∈ s.taken
  enteredTaken : ∀ name ∈ s.catalog.entries.keys, name ∈ s.taken
  queuedTaken : ∀ u ∈ s.pending, u.name ∈ s.taken
  status : ∀ i name, (i, name) ∈ s.names → Status g opened s i name

theorem Inv.start (g : Graph) : Inv g [] {} where
  taken := rfl
  distinct := List.nodup_nil
  sorted := Assoc.sorted_nil
  openedOnce := List.nodup_nil
  queuedOnce := List.nodup_nil
  openedTaken := nofun
  enteredTaken := nofun
  queuedTaken := nofun
  status := nofun

theorem Catalog.get?_insert (c : Catalog) (e : Entry) (name : String) :
    (c.insert e).get? name = if name = e.name then some e else c.get? name :=
  Assoc.get?_insert c.entries e.name e name

/-- The state in which a node is given a name. -/
def State.own (s : State) (i : Nat) (name : String) : State :=
  { s with names := (i, name) :: s.names, taken := name :: s.taken }

theorem reserveName_run (i : Nat) (base : String) (s : State) :
    reserveName i base s =
      .ok (TypeName.firstFree s.taken base, s.own i (TypeName.firstFree s.taken base)) := rfl

theorem Inv.own {g : Graph} {opened : List String} {s : State} (inv : Inv g opened s) (i : Nat)
    {name : String} (free : name ∉ s.taken) : Inv g (name :: opened) (s.own i name) := by
  have sub : s.names ⊆ (s.own i name).names := List.subset_cons_self _ _
  have keep {other : String} (mem : other ∈ s.taken) : other ≠ name := fun eq => free (eq ▸ mem)
  refine ⟨?_, inv.distinct.cons free, inv.sorted, ?_, inv.queuedOnce, ?_, ?_, ?_, ?_⟩
  · exact congrArg (name :: ·) inv.taken
  · exact inv.openedOnce.cons fun mem => free (inv.openedTaken _ mem)
  · rw [List.forall_mem_cons]
    exact ⟨List.mem_cons_self, fun other mem => List.mem_cons_of_mem _ (inv.openedTaken _ mem)⟩
  · exact fun other mem => List.mem_cons_of_mem _ (inv.enteredTaken _ mem)
  · exact fun u mem => List.mem_cons_of_mem _ (inv.queuedTaken _ mem)
  · intro j other mem
    rcases List.mem_cons.mp mem with eq | mem
    · cases eq
      refine .opened List.mem_cons_self (Assoc.get?_eq_none_iff.mpr fun mem => ?_) fun mem => ?_
      · exact free (inv.enteredTaken _ mem)
      · obtain ⟨u, mem, rfl⟩ := List.mem_map.mp mem
        exact free (inv.queuedTaken u mem)
    · have taken : other ∈ s.taken := inv.taken ▸ List.mem_map_of_mem (f := Prod.snd) mem
      cases inv.status j other mem with
      | opened mem entry queue => exact .opened (List.mem_cons_of_mem _ mem) entry queue
      | entered closed entry named queue defines =>
        refine .entered ?_ entry named queue (defines.mono sub)
        exact List.not_mem_cons_of_ne_of_not_mem (keep taken) closed
      | queued closed entry mem named owner defers =>
        refine .queued ?_ entry mem named owner (defers.mono sub)
        exact List.not_mem_cons_of_ne_of_not_mem (keep taken) closed

theorem Inv.names_distinct {g : Graph} {opened : List String} {s : State} (inv : Inv g opened s) :
    (s.names.map Prod.snd).Nodup :=
  inv.taken ▸ inv.distinct

theorem owner_unique {names : Names} (distinct : (names.map Prod.snd).Nodup) {i j : Nat}
    {name : String} (hi : (i, name) ∈ names) (hj : (j, name) ∈ names) : i = j :=
  congrArg Prod.fst (List.inj_on_of_nodup_map distinct hi hj rfl)

/-- The state in which an entry has been made. -/
def State.enter (s : State) (e : Entry) : State := { s with catalog := s.catalog.insert e }

theorem Inv.enter {g : Graph} {opened : List String} {s : State} {i : Nat} {e : Entry}
    (inv : Inv g (e.name :: opened) s) (owned : (i, e.name) ∈ s.names)
    (defines : Defines g s.names i e.type) : Inv g opened (s.enter e) := by
  obtain ⟨closed, once⟩ := List.nodup_cons.mp inv.openedOnce
  have taken : e.name ∈ s.taken := inv.openedTaken _ List.mem_cons_self
  refine ⟨inv.taken, inv.distinct, inv.sorted.insert, once, inv.queuedOnce, ?_, ?_,
    inv.queuedTaken, ?_⟩
  · exact fun name mem => inv.openedTaken name (List.mem_cons_of_mem _ mem)
  · intro name mem
    rcases Assoc.mem_keys_insert.mp mem with rfl | mem
    · exact taken
    · exact inv.enteredTaken name mem
  · intro j name mem
    by_cases eq : name = e.name
    · subst eq
      obtain rfl := owner_unique inv.names_distinct owned mem
      cases inv.status i e.name mem with
      | opened _ _ queue =>
        refine .entered closed ?_ rfl queue defines
        rw [State.enter, Catalog.get?_insert, if_pos rfl]
      | entered closed => exact absurd List.mem_cons_self closed
      | queued closed => exact absurd List.mem_cons_self closed
    · have other : (s.enter e).catalog.get? name = s.catalog.get? name := by
        rw [State.enter, Catalog.get?_insert, if_neg eq]
      cases inv.status j name mem with
      | opened mem entry queue =>
        exact .opened ((List.mem_cons.mp mem).resolve_left eq) (other ▸ entry) queue
      | entered closed entry named queue defines =>
        exact .entered (List.not_mem_of_not_mem_cons closed) (other ▸ entry) named queue defines
      | queued closed entry mem named owner defers =>
        exact .queued (List.not_mem_of_not_mem_cons closed) (other ▸ entry) mem named owner defers

/-- The state in which a union waits. -/
def State.queue (s : State) (u : PendingUnion) : State := { s with pending := s.pending ++ [u] }

theorem Inv.queue {g : Graph} {opened : List String} {s : State} {u : PendingUnion}
    (inv : Inv g (u.name :: opened) s) (owned : (u.node, u.name) ∈ s.names)
    (defers : Defers g s.names u.node u.branches) : Inv g opened (s.queue u) := by
  obtain ⟨closed, once⟩ := List.nodup_cons.mp inv.openedOnce
  have taken : u.name ∈ s.taken := inv.openedTaken _ List.mem_cons_self
  have names : (s.queue u).pending.map PendingUnion.name =
      s.pending.map PendingUnion.name ++ [u.name] := List.map_append
  have waits {name : String} (mem : name ∈ (s.queue u).pending.map PendingUnion.name)
      (ne : name ≠ u.name) : name ∈ s.pending.map PendingUnion.name := by
    rw [names, List.mem_append, List.mem_singleton] at mem
    exact mem.resolve_right ne
  have before := inv.status _ _ owned
  refine ⟨inv.taken, inv.distinct, inv.sorted, once, ?_, ?_, inv.enteredTaken, ?_, ?_⟩
  · cases before with
    | opened _ _ queue =>
      rw [names]
      exact List.nodup_append_comm.mp (inv.queuedOnce.cons queue)
    | entered closed => exact absurd List.mem_cons_self closed
    | queued closed => exact absurd List.mem_cons_self closed
  · exact fun name mem => inv.openedTaken name (List.mem_cons_of_mem _ mem)
  · intro w mem
    rcases List.mem_append.mp mem with mem | mem
    · exact inv.queuedTaken w mem
    · rwa [List.mem_singleton.mp mem]
  · intro j name mem
    by_cases eq : name = u.name
    · subst eq
      obtain rfl := owner_unique inv.names_distinct owned mem
      cases before with
      | opened _ entry _ =>
        exact .queued closed entry (List.mem_append_right _ List.mem_cons_self) rfl rfl defers
      | entered closed => exact absurd List.mem_cons_self closed
      | queued closed => exact absurd List.mem_cons_self closed
    · cases inv.status j name mem with
      | opened mem entry queue =>
        exact .opened ((List.mem_cons.mp mem).resolve_left eq) entry fun mem => queue (waits mem eq)
      | entered closed entry named queue defines =>
        exact .entered (List.not_mem_of_not_mem_cons closed) entry named
          (fun mem => queue (waits mem eq)) defines
      | queued closed entry mem named owner defers =>
        exact .queued (List.not_mem_of_not_mem_cons closed) entry (List.mem_append_left _ mem) named
          owner defers

end TypedArchive.Compile
