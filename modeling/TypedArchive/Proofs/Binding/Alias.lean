import TypedArchive.Proofs.Binding.Fault
import TypedArchive.Proofs.Binding.Run
import TypedArchive.Proofs.Binding.Write
import TypedArchive.Proofs.Catalog.Alias

/-! Aliases of names are transparent: values are read and written as an alias like as what it leads
to, since a round on an alias passes each value on to the target. -/

namespace TypedArchive.Catalog

variable {c : Catalog} {name next last : String}

theorem AliasTo.run_eq (step : c.AliasTo name next) (v : Json) : c.run name v = c.run next v := by
  obtain ⟨e, entry, type⟩ := step
  rw [run_eq_rounds, run_eq_rounds]
  refine Rounds.run_of_passes fun read => ?_
  simp only [Decode.rounds, Decode.round, entry, type]

theorem AliasTo.write_eq (step : c.AliasTo name next) (d : Data) :
    c.write name d = c.write next d := by
  obtain ⟨e, entry, type⟩ := step
  rw [write_eq_rounds, write_eq_rounds]
  refine Rounds.run_of_passes fun write => ?_
  simp only [Encode.rounds, Encode.round, entry, type]

theorem run_eq_of_chain (chain : Relation.ReflTransGen c.AliasTo name last) (v : Json) :
    c.run name v = c.run last v := by
  induction chain using Relation.ReflTransGen.head_induction_on with
  | refl => rfl
  | head step _ ih => exact (step.run_eq v).trans ih

theorem write_eq_of_chain (chain : Relation.ReflTransGen c.AliasTo name last) (d : Data) :
    c.write name d = c.write last d := by
  induction chain using Relation.ReflTransGen.head_induction_on with
  | refl => rfl
  | head step _ ih => exact (step.write_eq d).trans ih

/-- A name is resolved to the entry at which its chain of aliases stops, and to none exactly if the
chain dangles or comes to a circle. Where keys are the names of their entries, reading and writing
as a name is reading and writing as the entry that it is resolved to: both go on for ever, or they
come to the same, which is the result within the bound on names. -/
theorem resolveAlias_exact (c : Catalog) (name : String) :
    (∀ e, c.resolveAlias name = some e ↔ ∃ last, Relation.ReflTransGen c.AliasTo name last ∧
      c.get? last = some e ∧ ∀ next, e.type ≠ .alias (.named next)) ∧
    (c.resolveAlias name = none ↔ ∃ last, Relation.ReflTransGen c.AliasTo name last ∧
      (c.get? last = none ∨ Relation.TransGen c.AliasTo last last)) ∧
    (c.Keyed → ∀ e, c.resolveAlias name = some e →
      (∀ v, c.run name v = c.run e.name v ∧
        ∀ r, c.run name v = some r → c.decode name v = r ∧ c.decode e.name v = r) ∧
      ∀ d, c.write name d = c.write e.name d ∧
        ∀ r, c.write name d = some r → c.encode name d = r ∧ c.encode e.name d = r) := by
  refine ⟨fun e => resolveAlias_eq_some_iff, resolveAlias_eq_none_iff, fun keyed e resolved => ?_⟩
  obtain ⟨last, chain, entry, -⟩ := resolveAlias_eq_some_iff.mp resolved
  rw [keyed.name_eq entry]
  refine ⟨fun v => ?_, fun d => ?_⟩
  · have same := run_eq_of_chain chain v
    exact ⟨same, fun r read => ⟨decode_of_run read, decode_of_run (same.symm.trans read)⟩⟩
  · have same := write_eq_of_chain chain d
    exact ⟨same, fun r written =>
      ⟨encode_of_write written, encode_of_write (same.symm.trans written)⟩⟩

/-- Two aliases of a record that contains itself, one that dangles, a circle, and an alias of a union
that hands each value back to it. -/
theorem resolveAlias_exact_recursive :
    let entry (name : String) (type : TypeDef) : String × Entry := (name, ⟨name, "", none, type⟩)
    let link (name : String) : TypeDef := .alias (.named name)
    let c : Catalog := ⟨[entry "A" (link "B"), entry "B" (link "C"),
      entry "C" (.record [⟨"next", .named "A", true, none⟩]), entry "Gone" (link "Nowhere"),
      entry "Left" (link "Right"), entry "Right" (link "Left"),
      entry "U" (.union none [⟨none, .named "V", .any⟩]), entry "V" (link "U")]⟩
    let v : Json := .object [("next", .object [])]
    let d : Data := .record "C" [("next", .record "C" [] [])] []
    c.Keyed ∧ c.resolveAlias "A" = c.get? "C" ∧ c.resolveAlias "V" = c.get? "U" ∧
      c.resolveAlias "Gone" = none ∧ c.resolveAlias "Left" = none ∧
      c.run "A" v = some (.ok d) ∧ c.run "C" v = some (.ok d) ∧ c.decode "C" v = .ok d ∧
      c.write "A" d = some (.ok v) ∧ c.write "C" d = some (.ok v) ∧ c.encode "C" d = .ok v ∧
      c.run "V" .null = none ∧ c.run "U" .null = none := by
  intro entry link c v d
  have keyed : c.Keyed := by
    rw [Keyed]
    decide
  have record : c.resolveAlias "A" = c.get? "C" := by decide
  have «union» : c.resolveAlias "V" = c.get? "U" := by decide
  have gone : c.resolveAlias "Gone" = none :=
    (resolveAlias_exact c "Gone").2.1.mpr
      ⟨"Nowhere", .single ⟨_, rfl, rfl⟩, .inl (by decide)⟩
  have circle : c.resolveAlias "Left" = none :=
    (resolveAlias_exact c "Left").2.1.mpr
      ⟨"Left", .refl, .inr (.tail (.single ⟨_, rfl, rfl⟩) ⟨_, rfl, rfl⟩)⟩
  obtain ⟨reads, writes⟩ := (resolveAlias_exact c "A").2.2 keyed _ record
  obtain ⟨diverges, -⟩ := (resolveAlias_exact c "V").2.2 keyed _ «union»
  have read : c.run "A" v = some (.ok d) := by decide +kernel
  have written : c.write "A" d = some (.ok v) := by decide +kernel
  have endless : c.run "V" .null = none := by decide +kernel
  exact ⟨keyed, record, «union», gone, circle, read, (reads v).1.symm.trans read,
    ((reads v).2 _ read).2, written, (writes d).1.symm.trans written, ((writes d).2 _ written).2,
    endless, (diverges .null).1.symm.trans endless⟩

end TypedArchive.Catalog
