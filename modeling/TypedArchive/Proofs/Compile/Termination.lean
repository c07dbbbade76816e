import TypedArchive.Proofs.Binding.Run
import TypedArchive.Proofs.Catalog.Alias
import TypedArchive.Proofs.Compile.Soundness

/-! When a compiled catalog decodes every value. Neither tags nor shapes of one kind lead a value
round in a circle; aliases and variants of any shape may. -/

namespace TypedArchive

/-- A name hands every value that gets so far on to the next: as an alias of it, or as a union whose
variant, of any shape, it is. -/
def Catalog.Falls (c : Catalog) (name next : String) : Prop :=
  ∃ e, c.get? name = some e ∧ (e.type = .alias (.named next) ∨
    ∃ variants, e.type = .union none variants ∧
      ∃ v ∈ variants, v.type = .named next ∧ v.shape = .any)

namespace Compile

/-- Where aliases lead to no union, a value is handed on for a while only, also later in
compilation. -/
theorem endsWithin_of_resolveAlias {before c : Catalog} (kept : Extends before c) {v : Json}
    {name : String} {e : Entry} (resolved : before.resolveAlias name = some e)
    (plain : ∀ discriminant variants, e.type ≠ .union discriminant variants) :
    ∃ n, Chain.EndsWithin (Decode.hop c v) n (.named name) := by
  obtain ⟨last, chain, entry, other⟩ := Catalog.resolveAlias_eq_some_iff.mp resolved
  clear resolved
  induction chain using Relation.ReflTransGen.head_induction_on with
  | refl =>
    refine ⟨1, fun t hop => ?_⟩
    have entry' := kept.entries last e entry
    cases type : e.type with
    | «union» discriminant variants => exact absurd type (plain discriminant variants)
    | «alias» target =>
      simp only [Decode.hop, entry', type, Option.some.injEq] at hop
      subst hop
      cases target with
      | named next => exact absurd type (other next)
      | _ => rfl
    | _ => simp [Decode.hop, entry', type] at hop
  | head step _ ih =>
    obtain ⟨first, entry, type⟩ := step
    obtain ⟨n, ends⟩ := ih
    refine ⟨n + 1, fun t hop => ?_⟩
    simp only [Decode.hop, kept.entries _ first entry, type, Option.some.injEq] at hop
    exact hop ▸ ends

/-- A type whose shape is told from others is handed on for a while only. -/
theorem endsWithin_of_shapeOf {before c : Catalog} (kept : Extends before c) {v : Json}
    {t : TypeRef} (shape : shapeOf before t ≠ .any) :
    ∃ n, Chain.EndsWithin (Decode.hop c v) n t := by
  cases t with
  | named name =>
    cases resolved : before.resolveAlias name with
    | none => simp [shapeOf, resolved] at shape
    | some e =>
      refine endsWithin_of_resolveAlias kept resolved fun discriminant variants type => ?_
      simp [shapeOf, resolved, type] at shape
  | _ => exact ⟨0, rfl⟩

section Compiled

variable {g : Graph} {c : Catalog} {names : Names} {pending : List PendingUnion}
  (compiled : Compiled g c names pending) {v : Json}

include compiled

/-- What a union selects by its discriminant, or by a shape of one kind, is handed on for a while
only. -/
theorem Compiled.endsWithin_variant {name : String} {e : Entry} {discriminant : Option String}
    {variants : List Variant} (entry : c.get? name = some e)
    (type : e.type = .union discriminant variants) {variant : Variant} (mem : variant ∈ variants)
    (told : discriminant = none → variant.shape ≠ .any) :
    ∃ n, Chain.EndsWithin (Decode.hop c v) n variant.type := by
  obtain ⟨u, waiting, rfl, resolved⟩ := compiled.union entry type
  cases discriminant with
  | some discriminant =>
    have tagged := resolved.tagged_of_some
    obtain ⟨fields, tag, -, record, -⟩ := tagged.fixed variant mem
    obtain ⟨name, e', eq, leads, type'⟩ := recordOf?_eq_some.mp record
    rw [eq]
    refine endsWithin_of_resolveAlias (.refl c) leads fun discriminant variants union => ?_
    cases type'.symm.trans union
  | none =>
    obtain ⟨before, e', kept, entry', resolve⟩ := compiled.resolves u waiting
    cases entry.symm.trans entry'
    rw [type] at resolve
    obtain ⟨rfl, -⟩ := resolveUnion_shaped resolve
    obtain ⟨t, -, rfl⟩ := List.mem_map.mp mem
    exact endsWithin_of_shapeOf kept (told rfl)

/-- A step of a circle goes over an alias or over a variant of any shape. -/
theorem Compiled.falls_of_handsOn {t next : TypeRef} (step : c.HandsOn v t next)
    (circle : Relation.TransGen (c.HandsOn v) t t) :
    ∃ name name', t = .named name ∧ next = .named name' ∧ c.Falls name name' := by
  have rest := Chain.circle_step circle step
  obtain ⟨after, step', -⟩ := Relation.TransGen.head'_iff.mp rest
  cases next with
  | named name' =>
    cases t with
    | named name =>
      refine ⟨name, name', rfl, rfl, ?_⟩
      cases entry : c.get? name with
      | none => simp [Catalog.HandsOn, Chain.Step, Decode.hop, entry] at step
      | some e =>
        refine ⟨e, entry, ?_⟩
        cases type : e.type with
        | «alias» target =>
          simp only [Catalog.HandsOn, Chain.Step, Decode.hop, entry, type, Option.some.injEq]
            at step
          exact .inl (congrArg _ step)
        | «union» discriminant variants =>
          simp only [Catalog.HandsOn, Chain.Step, Decode.hop, entry, type] at step
          split at step
          · next index variant tag select =>
            have mem := List.mem_of_getElem? (Decode.selectVariant_index select)
            by_cases told : discriminant = none → variant.shape ≠ .any
            · obtain ⟨n, ends⟩ := compiled.endsWithin_variant (v := v) entry type mem told
              rw [Option.some.inj step] at ends
              exact absurd ends (Chain.not_endsWithin_of_circle rest n)
            · rw [Classical.not_imp, not_not] at told
              obtain ⟨rfl, shape⟩ := told
              exact .inr ⟨variants, rfl, variant, mem, Option.some.inj step, shape⟩
          · cases step
        | _ => simp [Catalog.HandsOn, Chain.Step, Decode.hop, entry, type] at step
    | _ => cases step
  | _ => cases step'

/-- A circle on a value is a circle of the catalog. -/
theorem Compiled.falls_of_circle {t t' : TypeRef} (leads : Relation.TransGen (c.HandsOn v) t t')
    (circle : Relation.TransGen (c.HandsOn v) t t) :
    ∃ name name', t = .named name ∧ t' = .named name' ∧ Relation.TransGen c.Falls name name' := by
  induction leads using Relation.TransGen.head_induction_on with
  | single step =>
    obtain ⟨name, name', rfl, rfl, falls⟩ := compiled.falls_of_handsOn step circle
    exact ⟨name, name', rfl, rfl, .single falls⟩
  | head step _ ih =>
    obtain ⟨name, mid, rfl, rfl, falls⟩ := compiled.falls_of_handsOn step circle
    obtain ⟨mid', name', eq, rfl, rest⟩ := ih (Chain.circle_step circle step)
    cases eq
    exact ⟨name, name', rfl, rfl, rest.head falls⟩

end Compiled

end Compile

/-- Where no chain of aliases and of variants of any shape leads back to its start, every value is
decoded to the end as each type of a compiled catalog. -/
theorem Graph.run_of_compile {g : Graph} {c : Catalog} (compile : g.compile = .ok c)
    (circles : ∀ name, ¬Relation.TransGen c.Falls name name) (name : String) (v : Json) :
    c.run name v = some (c.decode name v) := by
  obtain ⟨names, pending, compiled⟩ := Compile.compile_ok compile
  refine Catalog.run_eq_decode (fun v t circle => ?_) name v
  obtain ⟨name, name', rfl, eq, falls⟩ := compiled.falls_of_circle circle circle
  cases eq
  exact circles name falls

set_option maxRecDepth 100000 in
/-- A text or a list of the same: the union mentions itself, but only for parts of a value. -/
theorem Graph.run_of_compile_nested :
    let text : Json := .object [("type", .string "string")]
    let list : Json := .object
      [("type", .string "array"), ("items", .object [("$ref", .string "#/definitions/t")])]
    let schema : Json := .object
      [("definitions", .object [("t", .object [("oneOf", .array [text, list])])])]
    let v : Json := .array [.string "x", .array []]
    ∃ g c, Graph.load ⟨[("a.json", schema.render)]⟩ = .ok g ∧ g.compile = .ok c ∧
      (∀ name, ¬Relation.TransGen c.Falls name name) ∧ c.run "T" v = some (c.decode "T" v) ∧
      (c.decode "T" v).isOk = true := by
  intro text list schema v
  have runs : Bundle.compilesTo ⟨[("a.json", schema.render)]⟩ (fun _ c => decide
      (c.entries.map (fun p => p.2.type) = [.union none
        [{ type := .primitive .string, shape := .string },
          { type := .array (.named "T"), shape := .array }]] ∧
        (c.decode "T" v).isOk = true)) = true := by
    rw [Bundle.compilesTo_eq]
    decide +kernel
  obtain ⟨g, c, load, compile, h⟩ := Bundle.exists_of_compilesTo runs
  obtain ⟨types, decodes⟩ := of_decide_eq_true h
  have circles (name) : ¬Relation.TransGen c.Falls name name := by
    intro circle
    obtain ⟨next, ⟨e, entry, falls⟩, -⟩ := Relation.TransGen.head'_iff.mp circle
    have mem := List.mem_map_of_mem (f := fun p => p.2.type) (Assoc.mem_of_get? entry)
    rw [types, List.mem_singleton] at mem
    dsimp only at mem
    rw [mem] at falls
    simp at falls
  exact ⟨g, c, load, compile, circles, Graph.run_of_compile compile circles "T" v, decodes⟩

set_option maxRecDepth 100000 in
/-- A union that is a variant of itself hands on for ever what no earlier variant takes. -/
theorem Graph.run_of_self_variant :
    let text : Json := .object [("type", .string "string")]
    let self : Json := .object [("$ref", .string "#/definitions/a")]
    let schema : Json := .object
      [("definitions", .object [("a", .object [("oneOf", .array [text, self])])])]
    ∃ g c, Graph.load ⟨[("a.json", schema.render)]⟩ = .ok g ∧ g.compile = .ok c ∧
      c.HandsOn .null (.named "A") (.named "A") ∧ c.run "A" .null = none := by
  intro text self schema
  have runs : Bundle.compilesTo ⟨[("a.json", schema.render)]⟩ (fun _ c => decide
      (Decode.hop c .null (.named "A") = some (.named "A"))) = true := by
    rw [Bundle.compilesTo_eq]
    decide +kernel
  obtain ⟨g, c, load, compile, h⟩ := Bundle.exists_of_compilesTo runs
  have hop : Decode.hop c .null (.named "A") = some (.named "A") := of_decide_eq_true h
  have step : c.HandsOn .null (.named "A") (.named "A") := hop
  exact ⟨g, c, load, compile, step, Decode.run_eq_none_of_circle (.single step) _ []⟩

end TypedArchive
