import TypedArchive.Proofs.Binding.RoundTrip
import TypedArchive.Proofs.Compile.Union
import TypedArchive.Proofs.Schema.Load

/-! The records of a compiled catalog list their fields in increasing order of names, so none lists a
field twice. -/

namespace TypedArchive

/-- A record lists its fields in strictly increasing order of names. -/
def TypeDef.FieldsAscending : TypeDef → Prop
  | .record declared => (declared.map Field.name).Pairwise (· < ·)
  | _ => True

theorem TypeDef.FieldsAscending.distinct {type : TypeDef} (h : type.FieldsAscending) :
    type.FieldsDistinct := by
  cases type with
  | record declared => exact List.Pairwise.imp (fun lt => String.ne_of_lt lt) h
  | _ => trivial

namespace Compile

variable {g : Graph} {names : Names}

theorem node_properties_sorted (loaded : g.Loaded) (i : Nat) : (node g i).properties.Sorted := by
  rw [node, Graph.node?]
  cases found : g.nodes[i]? with
  | none => exact Assoc.sorted_nil
  | some n => exact loaded.properties n (Array.mem_toList_iff.mpr (Array.mem_of_getElem? found))

theorem fields_names {n : Node} {properties : Assoc Nat} {fields : List Field}
    (h : List.Forall₂ (FieldOf g names n) properties fields) :
    fields.map Field.name = properties.keys := by
  induction h with
  | nil => rfl
  | cons field _ ih => exact congrArg₂ List.cons field.1 ih

theorem Gathers.toFields_names {sources : List (String × Nat)} {m : Merged}
    (gathers : Gathers g names sources m) : m.toFields.map Field.name = m.fields.keys := by
  rw [Merged.toFields, Assoc.values, List.map_map, List.map_map, Assoc.keys]
  refine List.map_congr_left fun p mem => ?_
  exact gathers.name p.1 p.2 (Assoc.get?_of_mem gathers.sorted.keys_nodup mem)

theorem Defines.fieldsAscending (loaded : g.Loaded) {i : Nat} {t : TypeDef}
    (h : Defines g names i t) : t.FieldsAscending := by
  cases h with
  | merged _ _ _ h =>
    rw [TypeDef.FieldsAscending, h.gathers.toFields_names]
    exact h.gathers.sorted.keys_ascending
  | record _ _ h =>
    rw [TypeDef.FieldsAscending, fields_names h]
    exact (node_properties_sorted loaded i).keys_ascending
  | ref | single | map | array | enumeration | constant | primitive | any => trivial

theorem Resolved.fieldsAscending {c : Catalog} {unions : Branches} {u : PendingUnion} {t : TypeDef}
    (h : Resolved c unions u t) : t.FieldsAscending := by
  cases h with
  | inlined | tagged | shaped => trivial

theorem Compiled.fieldsAscending {c : Catalog} {pending : List PendingUnion}
    (compiled : Compiled g c names pending) (loaded : g.Loaded) {name : String} {e : Entry}
    (entry : c.get? name = some e) : e.type.FieldsAscending := by
  obtain ⟨i, owned⟩ := compiled.owned name e entry
  rcases compiled.entry i name owned with ⟨e, entry', defines, -⟩ | ⟨u, mem, rfl, -⟩
  · cases entry.symm.trans entry'
    exact defines.fieldsAscending loaded
  · obtain ⟨-, -, e, entry', resolved⟩ := compiled.pending u mem
    cases entry.symm.trans entry'
    exact resolved.fieldsAscending

end Compile

/-- No record of a catalog compiled from documents lists a field twice. -/
theorem Graph.fieldsDistinct_of_compile {b : Bundle} {g : Graph} {c : Catalog}
    (load : Graph.load b = .ok g) (compile : g.compile = .ok c) : c.FieldsDistinct := by
  obtain ⟨names, pending, compiled⟩ := Compile.compile_ok compile
  intro p mem
  have entry : c.get? p.1 = some p.2 := Assoc.get?_of_mem compiled.sorted.keys_nodup mem
  exact (compiled.fieldsAscending (Graph.loaded_of_load load).1 entry).distinct

end TypedArchive
