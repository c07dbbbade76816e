import Mathlib.Data.List.Chain
import TypedArchive.Compile.Search
import TypedArchive.Proofs.Binding.Fault
import TypedArchive.Proofs.Compile.WellFormed

/-! The check for circles is exact. It fails just when arrays and aliases lead from one of them back to
it, and it tells such a circle. A search that marks the names on its path as visited loses no circle
by that, and nothing is left on the path of the ways that it tried in vain. -/

namespace TypedArchive.Catalog

/-- A way from an array or alias back to it that passes through arrays and aliases only. -/
structure Circle (c : Catalog) (name : String) (cycle : List String) : Prop where
  starts : cycle.head? = some name
  ends : cycle.getLast? = some name
  moves : 2 ≤ cycle.length
  /-- Each name mentions the next. -/
  leads : cycle.IsChain c.Passes
  transparent : ∀ other ∈ cycle, ∃ e, c.get? other = some e ∧ isTransparent e.type = true

section Walk

variable {c : Catalog} {start name : String}

theorem passes_iff {next : String} : c.Passes name next ↔ c.transparentNext? name = some next := by
  refine ⟨Passes.transparentNext?, fun leads => ?_⟩
  rw [transparentNext?] at leads
  split at leads
  · next t type =>
    obtain ⟨e, entry, type⟩ := Option.map_eq_some_iff.mp type
    exact ⟨e, entry, by rw [type]; rfl, by rw [type]; exact Option.mem_toList.mpr leads⟩
  · next t type =>
    obtain ⟨e, entry, type⟩ := Option.map_eq_some_iff.mp type
    exact ⟨e, entry, by rw [type]; rfl, by rw [type]; exact Option.mem_toList.mpr leads⟩
  · cases leads

theorem pathBack_succ_eq_some {steps : Nat} {path : List String} :
    c.pathBack start (steps + 1) name = some path ↔ ∃ next, c.transparentNext? name = some next ∧
      (next = start ∧ path = [name, next] ∨
        next ≠ start ∧ ∃ rest, c.pathBack start steps next = some rest ∧ path = name :: rest) := by
  rw [pathBack]
  cases c.transparentNext? name with
  | none => simp
  | some next =>
    by_cases back : next = start
    · simp [back, eq_comm]
    · simp [back, @eq_comm _ path]

theorem pathBack_mono {steps more : Nat} {path : List String} (le : steps ≤ more)
    (found : c.pathBack start steps name = some path) :
    c.pathBack start more name = some path := by
  induction steps generalizing more name path with
  | zero => cases found
  | succ steps ih =>
    obtain ⟨more, rfl⟩ := Nat.exists_eq_add_of_le' le
    obtain ⟨next, step, back | ⟨other, rest, found, eq⟩⟩ := pathBack_succ_eq_some.mp found
    · exact pathBack_succ_eq_some.mpr ⟨next, step, .inl back⟩
    · have found := ih (Nat.le_add_left steps more) found
      exact pathBack_succ_eq_some.mpr ⟨next, step, .inr ⟨other, rest, found, eq⟩⟩

/-- The walk back is the same within any number of steps. -/
theorem pathBack_unique {steps steps' : Nat} {path path' : List String}
    (found : c.pathBack start steps name = some path)
    (found' : c.pathBack start steps' name = some path') : path = path' := by
  have more := pathBack_mono (Nat.le_add_right steps steps') found
  have more' := pathBack_mono (Nat.le_add_left steps' steps) found'
  exact Option.some.inj (more.symm.trans more')

theorem transGen_of_pathBack {steps : Nat} {path : List String}
    (found : c.pathBack start steps name = some path) :
    Relation.TransGen c.Passes name start := by
  induction steps generalizing name path with
  | zero => cases found
  | succ steps ih =>
    obtain ⟨next, step, ⟨rfl, -⟩ | ⟨-, rest, back, -⟩⟩ := pathBack_succ_eq_some.mp found
    · exact .single (passes_iff.mpr step)
    · exact .head (passes_iff.mpr step) (ih back)

theorem pathBack_walks {steps : Nat} {path : List String}
    (found : c.pathBack start steps name = some path) :
    path.head? = some name ∧ path.getLast? = some start ∧ 2 ≤ path.length ∧
      path.IsChain c.Passes ∧ ∀ other ∈ path, other = start ∨ ∃ next, c.Passes other next := by
  induction steps generalizing name path with
  | zero => cases found
  | succ steps ih =>
    obtain ⟨next, step, ⟨rfl, rfl⟩ | ⟨-, rest, back, rfl⟩⟩ := pathBack_succ_eq_some.mp found
    · have passes := passes_iff.mpr step
      refine ⟨rfl, rfl, le_rfl, .cons_cons passes (.singleton _), ?_⟩
      simpa using .inr ⟨next, passes⟩
    · have passes := passes_iff.mpr step
      obtain ⟨head, last, long, chain, move⟩ := ih back
      cases rest with
      | nil => cases head
      | cons first rest =>
        obtain rfl : first = next := Option.some.inj head
        refine ⟨rfl, ?_, ?_, .cons_cons passes chain, ?_⟩
        · rw [List.getLast?_cons_cons, last]
        · rw [List.length_cons]
          omega
        · exact List.forall_mem_cons.mpr ⟨.inr ⟨_, passes⟩, move⟩

/-- A walk back to its start is a circle. -/
theorem circle_of_pathBack {steps : Nat} {cycle : List String}
    (found : c.pathBack name steps name = some cycle) : c.Circle name cycle := by
  obtain ⟨starts, ends, moves, leads, move⟩ := pathBack_walks found
  obtain ⟨first, own, -⟩ := Relation.TransGen.head'_iff.mp (transGen_of_pathBack found)
  refine ⟨starts, ends, moves, leads, fun other mem => ?_⟩
  rcases move other mem with rfl | ⟨next, e, entry, transparent, -⟩
  · obtain ⟨e, entry, transparent, -⟩ := own
    exact ⟨e, entry, transparent⟩
  · exact ⟨e, entry, transparent⟩

end Walk

section Search

variable {c : Catalog} {start name : String} {s s' : Search} {front : List String}

/-- One step of the search. The last name of the path mentions one name at most. -/
theorem extendPath_succ {steps : Nat} (path : s.path = front ++ [name]) :
    c.extendPath start (steps + 1) s =
      s.tryNames start (c.extendPath start steps) (c.transparentNext? name).toList := by
  rw [extendPath, path, List.getLast?_concat, Option.bind_some, transparentNext?]
  cases entry : c.get? name with
  | none => rfl
  | some e =>
    obtain ⟨entryName, origin, description, type⟩ := e
    cases type <;> rfl

/-- A way that leads back is on the path in the end, and one that does not is off it again. -/
theorem extendPath_sound {steps : Nat} {found : Bool} (path : s.path = front ++ [name])
    (run : c.extendPath start steps s = (found, s')) :
    if found then ∃ walk, c.pathBack start steps name = some walk ∧ s'.path = front ++ walk
    else s'.path = s.path := by
  induction steps generalizing s s' front name found with
  | zero =>
    cases run
    simp
  | succ steps ih =>
    rw [extendPath_succ path] at run
    cases step : c.transparentNext? name with
    | none =>
      rw [step] at run
      cases run
      simp
    | some next =>
      rw [step, Option.toList_some, Search.tryNames] at run
      split at run
      · next back =>
        cases run
        refine ⟨[name, next], pathBack_succ_eq_some.mpr ⟨next, step, .inl ⟨back, rfl⟩⟩, ?_⟩
        simp [path]
      · next other =>
        split at run
        · cases run
          simp
        · have entered : (s.enter next).path = (front ++ [name]) ++ [next] := by
            rw [Search.enter, path]
          split at run
          · next s₁ deeper =>
            cases run
            obtain ⟨walk, back, onPath⟩ := ih entered deeper
            refine ⟨name :: walk, ?_, by rw [onPath, List.append_assoc, List.singleton_append]⟩
            exact pathBack_succ_eq_some.mpr ⟨next, step, .inr ⟨other, walk, back, rfl⟩⟩
          · next s₁ deeper =>
            cases run
            have off : s₁.path = (s.enter next).path := ih entered deeper
            simp [Search.leave, off, Search.enter]

/-- A walk back is found: the names visited before are at least as far from the start as its own
start, so it goes over none of them. -/
theorem extendPath_complete {steps : Nat} {walk : List String}
    (found : c.pathBack start steps name = some walk) (path : s.path = front ++ [name])
    (far : ∀ other ∈ s.visited, ∀ more walk', c.pathBack start more other = some walk' →
      walk.length ≤ walk'.length) :
    ∃ s', c.extendPath start steps s = (true, s') ∧ s'.path = front ++ walk := by
  induction steps generalizing s front name walk with
  | zero => cases found
  | succ steps ih =>
    rw [extendPath_succ path]
    obtain ⟨next, step, ⟨back, rfl⟩ | ⟨other, rest, back, rfl⟩⟩ := pathBack_succ_eq_some.mp found
    · rw [step, Option.toList_some, Search.tryNames, if_pos back]
      exact ⟨_, rfl, by simp [path]⟩
    · have fresh : next ∉ s.visited := by
        intro mem
        have le := far next mem steps rest back
        rw [List.length_cons] at le
        omega
      rw [step, Option.toList_some, Search.tryNames, if_neg other, if_neg fresh]
      have entered : (s.enter next).path = (front ++ [name]) ++ [next] := by
        rw [Search.enter, path]
      obtain ⟨s', run, onPath⟩ := ih back entered fun visited mem more walk' found' => by
        rcases List.mem_cons.mp mem with rfl | mem
        · exact Nat.le_of_eq (congrArg _ (pathBack_unique back found'))
        · have le := far visited mem more walk' found'
          rw [List.length_cons] at le
          omega
      rw [run]
      exact ⟨s', rfl, by rw [onPath, List.append_assoc, List.singleton_append]⟩

theorem searchCycle?_eq_pathBack (c : Catalog) (steps : Nat) (name : String) :
    c.searchCycle? steps name = c.pathBack name steps name := by
  ext cycle
  have start : ({ path := [name] } : Search).path = [] ++ [name] := rfl
  rw [searchCycle?]
  constructor
  · intro found
    split at found
    · next s run =>
      cases found
      obtain ⟨walk, back, path⟩ := extendPath_sound start run
      rw [back, path, List.nil_append]
    · cases found
  · intro back
    obtain ⟨s, run, path⟩ := extendPath_complete back start (List.forall_mem_nil _)
    rw [run]
    exact congrArg some path

end Search

/-- The walks back are no longer than there are entries. -/
theorem transparentCycle?_eq_pathBack {c : Catalog} {steps : Nat} (more : c.size < steps)
    (name : String) : c.transparentCycle? name = c.pathBack name steps name := by
  ext cycle
  refine ⟨fun found => pathBack_mono more found, fun found => ?_⟩
  have some : (c.pathBack name steps name).isSome = true := by rw [found, Option.isSome_some]
  obtain ⟨cycle', found'⟩ := Option.isSome_iff_exists.mp (transparentCycle?_isSome some)
  rw [found', pathBack_unique found' found]

theorem transparentCycle?_of_transGen {c : Catalog} {name : String}
    (circle : Relation.TransGen c.Passes name name) :
    ∃ cycle, c.transparentCycle? name = some cycle := by
  obtain ⟨steps, found⟩ := exists_pathBack circle
  exact Option.isSome_iff_exists.mp (transparentCycle?_isSome found)

section Validate

variable {c : Catalog}
  (resolves : ∀ p ∈ c.entries, ∀ name ∈ p.2.type.namedRefs, c.contains name = true)

/-- Where the check for circles fails. -/
theorem checkCycles_error {err : SchemaError} (h : c.checkCycles = .error err) :
    ∃ e ∈ c.entries.values, ∃ cycle, isTransparent e.type = true ∧
      c.transparentCycle? e.name = some cycle ∧ err = .circularReference e.origin cycle := by
  obtain ⟨e, mem, fails⟩ := Outcome.exists_of_forM_eq_error h
  split at fails
  · next cycle found =>
    cases fails
    split at found
    · next transparent => exact ⟨e, mem, cycle, transparent, found, rfl⟩
    · cases found
  · cases fails

include resolves

theorem validate_eq_checkCycles : c.validate = c.checkCycles := by
  have mentions : c.checkMentions = .ok () := by
    refine Outcome.forM_eq_ok.mpr fun e mem => ?_
    obtain ⟨p, listed, rfl⟩ := List.mem_map.mp mem
    have known : (p.2.type.namedRefs.find? fun name => !c.contains name) = none := by
      rw [List.find?_eq_none]
      intro name mentioned
      simp [resolves p listed name mentioned]
    rw [known]
  rw [validate, mentions]
  rfl

/-- The check fails at a circle just when arrays and aliases lead from an array or alias back to it,
which is just when there is any circle if the entries stand under their own names. What it tells is
such a circle, of the entry at fault. The search gives the same circles within any number of steps
above the number of entries. -/
theorem validate_circular :
    ((∃ origin cycle, c.validate = .error (.circularReference origin cycle)) ↔
      ∃ e ∈ c.entries.values, isTransparent e.type = true ∧
        Relation.TransGen c.Passes e.name e.name) ∧
      (c.Keyed → ((∃ origin cycle, c.validate = .error (.circularReference origin cycle)) ↔
        ∃ name, Relation.TransGen c.Passes name name)) ∧
      (∀ origin cycle, c.validate = .error (.circularReference origin cycle) →
        ∃ e ∈ c.entries.values, isTransparent e.type = true ∧ e.origin = origin ∧
          c.Circle e.name cycle) ∧
      ∀ steps > c.size, ∀ name, c.searchCycle? steps name = c.transparentCycle? name := by
  have exact : (∃ origin cycle, c.validate = .error (.circularReference origin cycle)) ↔
      ∃ e ∈ c.entries.values, isTransparent e.type = true ∧
        Relation.TransGen c.Passes e.name e.name := by
    rw [validate_eq_checkCycles resolves]
    constructor
    · rintro ⟨origin, cycle, fails⟩
      obtain ⟨e, mem, cycle', transparent, found, -⟩ := checkCycles_error fails
      exact ⟨e, mem, transparent, transGen_of_pathBack found⟩
    · rintro ⟨e, mem, transparent, circle⟩
      obtain ⟨cycle, found⟩ := transparentCycle?_of_transGen circle
      cases check : c.checkCycles with
      | ok u =>
        have passed := Outcome.forM_eq_ok.mp check e mem
        simp [transparent, found] at passed
      | error err =>
        obtain ⟨e', -, cycle', -, -, rfl⟩ := checkCycles_error check
        exact ⟨_, _, rfl⟩
  refine ⟨exact, fun keyed => exact.trans ⟨?_, ?_⟩, fun origin cycle fails => ?_,
    fun steps more name => ?_⟩
  · rintro ⟨e, -, -, circle⟩
    exact ⟨e.name, circle⟩
  · rintro ⟨name, circle⟩
    obtain ⟨next, ⟨e, entry, transparent, -⟩, -⟩ := Relation.TransGen.head'_iff.mp circle
    have named : e.name = name := keyed.name_eq entry
    exact ⟨e, List.mem_map_of_mem (Assoc.mem_of_get? entry), transparent, named ▸ circle⟩
  · rw [validate_eq_checkCycles resolves] at fails
    obtain ⟨e, mem, cycle', transparent, found, eq⟩ := checkCycles_error fails
    cases eq
    exact ⟨e, mem, transparent, rfl, circle_of_pathBack found⟩
  · rw [searchCycle?_eq_pathBack, transparentCycle?_eq_pathBack more]

end Validate

/-- A list of maps of such lists, reached from an alias that comes before them. The search from the
alias meets the circle, and goes round it once, but does not come back to the alias. -/
theorem validate_circular_beside :
    let c : Catalog := ⟨[("A", ⟨"A", "a.json#", none, .alias (.named "L")⟩),
      ("L", ⟨"L", "l.json#", none, .array (.named "M")⟩),
      ("M", ⟨"M", "m.json#", none, .alias (.map (.named "L"))⟩)]⟩
    (∀ p ∈ c.entries, ∀ name ∈ p.2.type.namedRefs, c.contains name = true) ∧ c.Keyed ∧
      c.validate = .error (.circularReference "l.json#" ["L", "M", "L"]) ∧
      c.Circle "L" ["L", "M", "L"] ∧ c.searchCycle? 4 "L" = some ["L", "M", "L"] ∧
      c.searchCycle? 4 "A" = none ∧ ∃ name, Relation.TransGen c.Passes name name := by
  intro c
  have resolves : ∀ p ∈ c.entries, ∀ name ∈ p.2.type.namedRefs, c.contains name = true := by
    decide
  have keyed : c.Keyed := by
    unfold Keyed
    decide
  have fails : c.validate = .error (.circularReference "l.json#" ["L", "M", "L"]) := rfl
  obtain ⟨-, any, told, search⟩ := validate_circular resolves
  obtain ⟨e, mem, -, origin, circle⟩ := told _ _ fails
  have own : e.name = "L" := by
    rw [← Option.some.injEq, ← circle.starts]
    rfl
  exact ⟨resolves, keyed, fails, own ▸ circle, (search 4 (by decide) "L").trans rfl,
    (search 4 (by decide) "A").trans rfl, (any keyed).mp ⟨_, _, fails⟩⟩

end TypedArchive.Catalog
