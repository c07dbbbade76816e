import TypedArchive.Emit.Basic
import TypedArchive.Proofs.Compile.Shape
import TypedArchive.Proofs.Compile.Spelling
import TypedArchive.Proofs.Emit.Identifier
import TypedArchive.Proofs.Emit.Size

/-! The names of emitted types. Each entry becomes one type with an identifier of its own; emitted
code mentions some standard types by their last name alone, and those it means as long as no entry
takes their names. -/

namespace TypedArchive

namespace Emit

/-- The type that an item declares. -/
def Item.type? : Item → Option String
  | .alias _ name _ | .struct _ name _ | .enumeration _ name _ => some name
  | .implementation .. => none

/-- The standard types that emitted code mentions without a path. -/
def bareTypes : List String := ["Option", "Vec", "Box", "Result"]

end Emit

namespace TypeName.IsWord

variable {name : String}

theorem tidy (h : IsWord name) : Emit.Tidy name where
  nonempty := h.nonempty
  characters := h.characters
  last _ mem eq := h.unbroken (eq ▸ List.mem_of_getLast? mem)

/-- Two words have two identifiers. -/
theorem identifier_injOn : Set.InjOn Emit.identifier {name | IsWord name} := by
  refine (Emit.identifier_injOn (fun c => c.isDigit = false) fun _ _ => id).mono ?_
  exact fun name word => ⟨IsWord.tidy word, IsIdentifier.start word.toIsIdentifier⟩

end TypeName.IsWord

namespace Emit

theorem isWord_bareTypes {name : String} (mem : name ∈ bareTypes) : TypeName.IsWord name := by
  have each : ∀ name ∈ bareTypes, TypeName.IsIdentifier name ∧ TypeName.Unbroken name := by
    decide +kernel
  exact { (each name mem).1 with unbroken := (each name mem).2 }

theorem identifier_bareTypes {name : String} (mem : name ∈ bareTypes) : identifier name = name := by
  revert name
  decide +kernel

end Emit

namespace Catalog

variable {c : Catalog} {runtime : Emit.CodePath}

/-- The items of an entry declare one type, which has the identifier of its name. -/
theorem types_items {e : Entry} {items : List Emit.Item} (h : c.items runtime e = .ok items) :
    items.filterMap Emit.Item.type? = [Emit.identifier e.name] := by
  cases emits_of_items h with
  | literals =>
    rw [Emit.literalEnumItems]
    split <;> rfl
  | _ => rfl

/-- The emitted types are those of the entries, in key order. -/
theorem types_allItems (keyed : c.Keyed) {items : List Emit.Item}
    (h : c.allItems runtime = .ok items) :
    items.filterMap Emit.Item.type? = c.names.map Emit.identifier := by
  obtain ⟨each, emitted, eq⟩ := Outcome.bind_eq_ok.mp h
  cases eq
  rw [Outcome.mapM_eq_ok] at emitted
  have types : each.map (List.filterMap Emit.Item.type?) =
      c.entries.map fun p => [Emit.identifier p.2.name] := by
    refine List.forall₂_eq_eq_eq ▸ List.forall₂_map_left_iff.mpr (List.forall₂_map_right_iff.mpr ?_)
    exact (emitted.imp fun p items emitted => types_items emitted).flip
  have named : c.entries.map (fun p => Emit.identifier p.2.name) = c.names.map Emit.identifier := by
    rw [names, Assoc.keys, List.map_map]
    exact List.map_congr_left fun p mem => congrArg Emit.identifier (keyed p mem)
  rw [List.filterMap_flatten, types, ← List.flatMap_def, ← List.map_eq_flatMap, named]

end Catalog

open Emit in
/-- The types that are emitted for a compiled catalog are one for each entry, in key order and with
distinct names, and a standard type that emitted code mentions by its last name alone is captured
exactly where an entry has that name. -/
theorem Graph.types_of_compile {g : Graph} {c : Catalog} (compile : g.compile = .ok c) :
    (∀ runtime items, c.allItems runtime = .ok items →
      items.filterMap Item.type? = c.names.map identifier) ∧
      (c.names.map identifier).Nodup ∧
      ∀ name ∈ bareTypes, name ∈ c.names.map identifier ↔ c.contains name = true := by
  obtain ⟨names, pending, compiled⟩ := Compile.compile_ok compile
  have words (name) (mem : name ∈ c.names) : TypeName.IsWord name :=
    Compile.isWord_of_compile compile (Assoc.contains_iff_mem_keys.mpr mem)
  refine ⟨fun runtime items => Catalog.types_allItems (Compile.keyed_of_compile compile), ?_,
    fun name bare => ?_⟩
  · refine compiled.sorted.keys_nodup.map_on fun a ha b hb => ?_
    exact TypeName.IsWord.identifier_injOn (words a ha) (words b hb)
  · rw [List.mem_map, Catalog.contains, Assoc.contains_iff_mem_keys]
    constructor
    · rintro ⟨other, mem, eq⟩
      rw [← identifier_bareTypes bare] at eq
      exact TypeName.IsWord.identifier_injOn (words other mem) (isWord_bareTypes bare) eq ▸ mem
    · exact fun mem => ⟨name, mem, identifier_bareTypes bare⟩

set_option maxRecDepth 100000 in
/-- Definitions that are named for the type at hand keep away from it and from one another. -/
theorem Graph.types_of_compile_self :
    let any : Json := .object []
    let schema : Json := .object [("definitions", .object
      [("Self", any), ("self_type", any), ("éself", any)])]
    ∃ g c items, Graph.load ⟨[("a.json", schema.render)]⟩ = .ok g ∧ g.compile = .ok c ∧
      c.allItems (.of ["runtime"]) = .ok items ∧
      items.filterMap Emit.Item.type? = ["SelfType", "SelfType2", "self_"] ∧
      (items.filterMap Emit.Item.type?).Nodup ∧
      ∀ name ∈ Emit.bareTypes, name ∉ items.filterMap Emit.Item.type? := by
  intro any schema
  have runs : Bundle.compilesTo ⟨[("a.json", schema.render)]⟩ (fun _ c => decide
      ((c.allItems (.of ["runtime"])).isOk = true ∧
        c.names = ["SelfType", "SelfType2", "self"])) = true := by
    rw [Bundle.compilesTo_eq]
    decide +kernel
  obtain ⟨g, c, load, compile, h⟩ := Bundle.exists_of_compilesTo runs
  obtain ⟨emits, names⟩ := of_decide_eq_true h
  obtain ⟨items, emitted⟩ := Outcome.exists_of_isOk emits
  obtain ⟨types, distinct, captured⟩ := Graph.types_of_compile compile
  have free : ∀ name ∈ Emit.bareTypes, name ∉ ["SelfType", "SelfType2", "self"] := by
    decide +kernel
  refine ⟨g, c, items, load, compile, emitted, ?_, types _ _ emitted ▸ distinct,
    fun name bare mem => ?_⟩
  · rw [types _ _ emitted, names]
    decide +kernel
  · rw [types _ _ emitted, captured name bare, Catalog.contains, Assoc.contains_iff_mem_keys] at mem
    exact free name bare (names ▸ mem)

set_option maxRecDepth 100000 in
/-- Definitions that are named for standard types take their names, and an optional member is meant
as the standard type. -/
theorem Graph.types_of_standard :
    let any : Json := .object []
    let member : Json := .object [("properties", .object [("a", any)])]
    let schema : Json := .object [("definitions", .object
      [("box", any), ("option", member), ("result", any), ("vec", any)])]
    ∃ g c items, Graph.load ⟨[("a.json", schema.render)]⟩ = .ok g ∧ g.compile = .ok c ∧
      c.allItems (.of ["runtime"]) = .ok items ∧
      (∀ name ∈ Emit.bareTypes, name ∈ items.filterMap Emit.Item.type?) ∧
      Emit.CodeType.path (.of ["Option"]) [Emit.jsonType] ∈ items.flatMap Emit.Item.types := by
  intro any member schema
  have runs : Bundle.compilesTo ⟨[("a.json", schema.render)]⟩ (fun _ c => decide
      (c = ⟨[("Box", ⟨"Box", "a.json#/definitions/box", none, .alias .any⟩),
        ("Option", ⟨"Option", "a.json#/definitions/option", none,
          .record [⟨"a", .any, true, none⟩]⟩),
        ("Result", ⟨"Result", "a.json#/definitions/result", none, .alias .any⟩),
        ("Vec", ⟨"Vec", "a.json#/definitions/vec", none, .alias .any⟩)]⟩)) = true := by
    rw [Bundle.compilesTo_eq]
    decide +kernel
  obtain ⟨g, c, load, compile, h⟩ := Bundle.exists_of_compilesTo runs
  cases of_decide_eq_true h
  exact ⟨g, _, _, load, compile, rfl, by decide +kernel,
    List.mem_cons_of_mem _ List.mem_cons_self⟩

end TypedArchive
