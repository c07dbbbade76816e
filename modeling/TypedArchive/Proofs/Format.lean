import TypedArchive.Format
import TypedArchive.Proofs.Emit.Reads
import TypedArchive.Proofs.Emit.RoundTrip
import TypedArchive.Proofs.Emit.Unclashed

/-! The fixture bindings read JSON as their catalog does, and write back what they have read. Three
facts about the catalog are behind this: only fields of records have literals as their types, no
record has two fields of one name, and no type has two members of one identifier. -/

namespace TypedArchive.Format

theorem widen_catalog : catalog.widen = catalog := by rfl

theorem fieldsDistinct : catalog.FieldsDistinct := by decide +kernel

theorem nodup_identifiers : ∀ p ∈ catalog.entries, p.2.type.identifiers.Nodup := by decide +kernel

/-- A type of the bindings rejects what the catalog rejects, at the same path. -/
theorem fault_decode (name : String) (v : Json) :
    Decode.fault (decode name v) = Decode.fault (catalog.decode name v) :=
  catalog.fault_decode_plans widen_catalog name v

/-- What is read is written back: keys that the schemas do not know are kept, and so are the absence
of optional members and the way in which numbers are represented. -/
theorem encode_eq_some {name : String} {v : Json} (sorted : v.Sorted) {x : EmittedValue}
    (h : decode name v = .ok x) : encode name x = some v ∧ x.toJson = v := by
  have unclashed := Catalog.unclashed_of_nodup nodup_identifiers Emit.defaultRuntime
  obtain ⟨json, written⟩ := Reader.writes_of_value unclashed sorted (Outcome.mapError_eq_ok.mp h)
  exact ⟨written, json⟩

/-- The bindings and their catalog read the same values. Either way what is read has the value as its
JSON and is written as the value; and what is not read is rejected at one path. -/
theorem decode_cases (name : String) {v : Json} (sorted : v.Sorted) :
    (∃ x d, decode name v = .ok x ∧ catalog.decode name v = .ok d ∧
      x.toJson = d.toJson ∧ encode name x = some v ∧ catalog.encode name d = .ok v) ∨
      ∃ e e', decode name v = .error e ∧ catalog.decode name v = .error e' ∧ e.path = e'.path := by
  have alike := fault_decode name v
  cases typed : decode name v with
  | error e =>
    rw [typed] at alike
    cases read : catalog.decode name v with
    | error e' =>
      rw [read] at alike
      exact .inr ⟨e, e', rfl, rfl, Option.some.inj alike⟩
    | ok d =>
      rw [read] at alike
      cases alike
  | ok x =>
    rw [typed] at alike
    obtain ⟨d, read⟩ := Outcome.exists_of_isOk (Outcome.fault_eq_none.mp alike.symm)
    obtain ⟨written, json⟩ := encode_eq_some sorted typed
    obtain ⟨json', written'⟩ :=
      (Catalog.decode_eq_ok_iff.mp read).inverse fieldsDistinct sorted
    exact .inl ⟨x, d, rfl, read, json.trans json'.symm, written, written' []⟩

end TypedArchive.Format
