import TypedArchive.Proofs.Compile.Repeat
import TypedArchive.Proofs.Compile.WellFormed

/-! Compilation is stable. A node has one type in all places where it stands, whatever name it was
offered there and whatever was compiled in between; it owns at most one entry; and a part that an
`allOf` meets again adds nothing and conflicts with nothing. -/

namespace TypedArchive

/-- Each entry belongs to one node, and each node has at most one entry. -/
structure Catalog.OneEach (g : Graph) (names : Compile.Names) (c : Catalog) : Prop where
  owner : ∀ p ∈ c.entries, p.2.name = p.1 ∧
    ∃! i, (i, p.1) ∈ names ∧ p.2.origin = (Compile.node g i).id
  once : ∀ p ∈ c.entries, ∀ q ∈ c.entries, ∀ i, (i, p.1) ∈ names → (i, q.1) ∈ names → p = q

namespace Compile

theorem oneEach_of_entered {g : Graph} {names : Names} {c : Catalog} (sorted : c.entries.Sorted)
    (distinct : (names.map Prod.snd).Nodup) (once : (names.map Prod.fst).Nodup)
    (entered : ∀ p ∈ c.entries, Entered g names p) : c.OneEach g names where
  owner p mem := by
    obtain ⟨named, i, owned, origin⟩ := entered p mem
    exact ⟨named, i, ⟨owned, origin⟩, fun j other => owner_unique distinct other.1 owned⟩
  once p hp q hq i owned owned' := by
    have name : p.1 = q.1 := congrArg Prod.snd (List.inj_on_of_nodup_map once owned owned' rfl)
    exact List.inj_on_of_nodup_map sorted.keys_nodup hp hq name

theorem Owned.oneEach {g : Graph} {s : State} (owned : Owned g s) :
    s.catalog.OneEach g s.names :=
  oneEach_of_entered owned.sorted owned.distinct owned.once owned.entries

/-- A state of a compilation: one that comes later than the naming of the nodes that own an entry
from the start. -/
def Moment (g : Graph) (s : State) : Prop :=
  ∃ names s₀, reserveNames g {} = .ok (names, s₀) ∧ Later g s₀ s

section Moment

variable {g : Graph} {s : State}

theorem Moment.owned (loaded : g.Loaded) (moment : Moment g s) : Owned g s := by
  obtain ⟨names, s₀, run, later⟩ := moment
  obtain ⟨names', s₀', run', owned, -⟩ := reserveNames_owned loaded
  cases run.symm.trans run'
  exact owned.later later

theorem moment_of_buildEntries {u : Unit} (h : buildEntries g {} = .ok (u, s)) : Moment g s := by
  rw [buildEntries] at h
  obtain ⟨names, s₀, run, h⟩ := Outcome.bind_run_eq_ok.mp h
  obtain ⟨-, -, owned⟩ := reserve_ok (Inv.start g) run
  exact ⟨names, s₀, run, (compileAll_advances g _ owned h).1⟩

end Moment

/-- What is stable while a graph is compiled. -/
structure Stable (g : Graph) : Prop where
  /-- All that a call does is to take the state to a later one. -/
  advance : ∀ budget, AllAdvance g budget
  /-- Two calls for one node give one type, if both are over in some state. Neither has to come
  first or to stand outside of the other. -/
  typeRef : ∀ i budget hint s₁ t₁ s₁', typeRef g budget i hint s₁ = .ok (t₁, s₁') →
    ∀ budget' hint' s₂ t₂ s₂', typeRef g budget' i hint' s₂ = .ok (t₂, s₂') →
      ∀ s, Later g s₁' s → Later g s₂' s → t₁ = t₂
  /-- At each moment of a compilation the entries that have been made are of one node each. -/
  entries : ∀ s, Moment g s → s.catalog.OneEach g s.names
  /-- So are the entries of the catalog in the end, by the names of the last moment. -/
  compiled : ∀ c, g.compile = .ok c →
    ∃ s, buildEntries g {} = .ok ((), s) ∧ Moment g s ∧ c.OneEach g s.names
  /-- A node that an `allOf` has merged is merged again without a change and without a conflict. -/
  diamond : ∀ i budget root owner visiting m s m₁ s₁,
    collectFields g budget root i owner visiting m s = .ok (m₁, s₁) →
    ∀ budget' root' owner' visiting' m₂ s₂, m₁.Narrows m₂ → Later g s₁ s₂ →
      Repeats (collectFields g budget' root' i owner' visiting' m₂) s₂ m₂.Same

theorem typeRef_stable {g : Graph} {i b b' : Nat} {hint hint' : String} {t t' : TypeRef}
    {s₁ s₁' s₂ s₂' s : State} (first : typeRef g b i hint s₁ = .ok (t, s₁'))
    (other : typeRef g b' i hint' s₂ = .ok (t', s₂')) (later : Later g s₁' s)
    (later' : Later g s₂' s) : t = t' := by
  have stands := standing_mono later.grown le_rfl (((allAdvance g b).typeRef _ _ _) first).2
  have stands' := standing_mono later'.grown le_rfl (((allAdvance g b').typeRef _ _ _) other).2
  exact standing_unique stands stands'

theorem collectFields_again {g : Graph} (loaded : g.Loaded) {i b : Nat} {root owner : String}
    {visiting : List Nat} {m m₁ m₂ : Merged} {s s₁ s₂ : State}
    (first : collectFields g b root i owner visiting m s = .ok (m₁, s₁)) (narrows : m₁.Narrows m₂)
    (later : Later g s₁ s₂) (b' : Nat) (root' owner' : String) (visiting' : List Nat) :
    Repeats (collectFields g b' root' i owner' visiting' m₂) s₂ m₂.Same := by
  obtain ⟨-, -, absorbed⟩ := (allAdvance g b).collectFields _ _ _ _ _ _ first
  exact (allRepeat loaded b').collectFields _ _ _ fun j part =>
    (absorbed j part).mono later.grown narrows

end Compile

open Compile in
/-- While a loaded graph is compiled, what is found of a node is stable. -/
theorem Graph.stable_of_load {b : Bundle} {g : Graph} (load : Graph.load b = .ok g) :
    Stable g := by
  obtain ⟨loaded, -⟩ := Graph.loaded_of_load load
  refine ⟨allAdvance g, fun i b h s₁ t₁ s₁' first b' h' s₂ t₂ s₂' other s later later' => ?_,
    fun s moment => (moment.owned loaded).oneEach, fun c compile => ?_,
    fun i b root owner visiting m s m₁ s₁ first b' root' owner' visiting' m₂ s₂ narrows later => ?_⟩
  · exact typeRef_stable first other later later'
  · obtain ⟨s, build, compiled, owners, -⟩ := compile_owners loaded compile
    exact ⟨s, build, moment_of_buildEntries build,
      oneEach_of_entered compiled.sorted compiled.distinct owners.once owners.entries⟩
  · exact collectFields_again loaded first narrows later _ _ _ _

set_option maxRecDepth 100000 in
open Compile in
/-- An `allOf` that reaches a definition along two branches. The record inside is named after the
place where it was met first, and stands by that name in the definition too. -/
theorem Graph.stable_of_load_diamond :
    let record (name : String) (type : Json) : Json :=
      .object [("properties", .object [(name, type)])]
    let base : Json := record "p" (record "x" (.object [("type", .string "string")]))
    let ref : Json := .object [("$ref", .string "#/definitions/base")]
    let schema : Json := .object
      [("allOf", .array [ref, .object [("allOf", .array [ref])]]),
        ("definitions", .object [("base", base)])]
    ∃ g c, Graph.load ⟨[("a.json", schema.render)]⟩ = .ok g ∧ g.compile = .ok c ∧
      c.names = ["A", "AP", "Base"] ∧ (∀ name ∈ ["A", "Base"],
        (recordOf? c (.named name)).map (List.map Field.type) = some [.named "AP"]) ∧
      Stable g := by
  intro record base ref schema
  have runs : Bundle.compilesTo ⟨[("a.json", schema.render)]⟩ (fun _ c => decide
      (c.names = ["A", "AP", "Base"] ∧ ∀ name ∈ ["A", "Base"],
        (recordOf? c (.named name)).map (List.map Field.type) = some [.named "AP"])) = true := by
    rw [Bundle.compilesTo_eq]
    decide +kernel
  obtain ⟨g, c, load, compile, h⟩ := Bundle.exists_of_compilesTo runs
  obtain ⟨names, fields⟩ := of_decide_eq_true h
  exact ⟨g, c, load, compile, names, fields, Graph.stable_of_load load⟩

end TypedArchive
