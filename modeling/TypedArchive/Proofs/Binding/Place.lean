import TypedArchive.Proofs.Binding.Reads
import TypedArchive.Proofs.Json.Place

/-! Changes inside a value that decodes: what changes in the data when one part of the value is
replaced by another that reads as the same type, or when an object gets a member that its record does
not declare. -/

namespace TypedArchive

/-- Sets a member that the record does not declare. -/
def Record.setExtra (key : String) (w : Json) (r : Record) : Record :=
  { r with extra := r.extra.insert key w }

namespace Data

/-- Changes the part of a value behind a key or an index, inside its unions. -/
def modifyPart (f : Data → Data) : Segment → Data → Data
  | s, .union typeName tag variant d => .union typeName tag variant (modifyPart f s d)
  | .key name, .record typeName fields extra =>
    .record typeName (Assoc.modify fields name f) extra
  | .key name, .map entries => .map (Assoc.modify entries name f)
  | .index i, .array items => .array (items.modify i f)
  | _, d => d

/-- Changes the value at a place; unions on the way are seen through. -/
def modifyAt (f : Data → Data) : FieldPath → Data → Data
  | [], d => f d
  | s :: rest, d => d.modifyPart (modifyAt f rest) s

/-- A change to the record at a place leaves the unions around it as they are. -/
theorem modifyAt_union (f : Record → Record) (path : FieldPath) (typeName : String)
    (tag : Option Literal) (variant : Nat) (d : Data) :
    (union typeName tag variant d).modifyAt (modifyRecord f) path =
      .union typeName tag variant (d.modifyAt (modifyRecord f) path) := by
  cases path with
  | nil => rfl
  | cons s path => cases s <;> rfl

end Data

theorem zip_modify {α β : Type} (xs : List α) (ys : List β) (i : Nat) (f : α → α) (g : β → β) :
    (xs.modify i f).zip (ys.modify i g) = (xs.zip ys).modify i (Prod.map f g) := by
  induction xs generalizing ys i with
  | nil => cases i <;> simp
  | cons x xs ih =>
    cases ys with
    | nil => cases i <;> simp
    | cons y ys =>
      cases i with
      | zero => rfl
      | succ i => exact congrArg (List.cons (x, y)) (ih ys i)

namespace Catalog

variable {c : Catalog} {t : TypeRef} {d : Data} {f : Json → Json} {k : Data → Data}

/-- A change of a value that the data follows: whatever the value reads as, the changed value reads
as the changed data. -/
def Follows (c : Catalog) (t : TypeRef) (v : Json) (f : Json → Json) (k : Data → Data) : Prop :=
  ∀ d, c.Reads t v d → c.Reads t (f v) (k d)

theorem Follows.item {items : List Json} {i : Nat} {w : Json} (found : items[i]? = some w)
    (part : c.Follows t w f k) :
    c.Follows (.array t) (.array items) (fun _ => .array (items.modify i f))
      (Data.modifyPart k (.index i)) := by
  intro d read
  cases read with
  | @array _ _ ds length each =>
    refine .array (by rw [List.length_modify, List.length_modify, length]) fun p mem => ?_
    rw [zip_modify] at mem
    obtain ⟨q, listed, rfl | ⟨place, rfl⟩⟩ := Json.mem_modify mem
    · exact each _ listed
    · have first : items[i]? = some q.1 := (List.getElem?_zip_eq_some.mp place).1
      cases found.symm.trans first
      exact part q.2 (each q listed)

theorem Follows.entry {members : List (String × Json)} {key : String} {w : Json}
    (sorted : Assoc.Sorted members) (found : Assoc.get? members key = some w)
    (part : c.Follows t w f k) :
    c.Follows (.map t) (.object members) (fun _ => .object (Assoc.modify members key f))
      (Data.modifyPart k (.key key)) := by
  intro d read
  cases read with
  | @map _ _ entries keys each =>
    refine .map ?_ fun p mem => ?_
    · exact (Assoc.keys_modify members key f).trans
        (keys.trans (Assoc.keys_modify entries key k).symm)
    · rw [Assoc.modify, Assoc.modify, List.zip_map] at mem
      obtain ⟨⟨⟨name, v⟩, ⟨name', d⟩⟩, listed, rfl⟩ := List.mem_map.mp mem
      obtain rfl : name = name' := Outcome.eq_of_mem_zip keys listed
      have read : c.Reads t v d := each _ listed
      by_cases eq : name = key
      · subst eq
        have here : Assoc.get? members name = some v :=
          Assoc.get?_of_mem sorted.keys_nodup (List.of_mem_zip listed).1
        cases found.symm.trans here
        simpa using part d read
      · simpa [eq] using read

variable {name : String} {e : Entry} {declared : List Field} {members : List (String × Json)}
  (entry : c.get? name = some e) (type : e.type = .record declared)

include entry type

theorem reads_record (read : c.Reads (.named name) (.object members) d) :
    ∃ pairs, d = .record e.name (Assoc.ofList pairs) (undeclared declared members) ∧
      (∀ f ∈ declared, f.optional = false → Assoc.contains members f.name = true) ∧
      (presentFields declared members).map Field.name = pairs.map Prod.fst ∧
      ∀ p ∈ (presentFields declared members).zip pairs,
        ∀ w, Assoc.get? members p.1.name = some w → c.Reads p.1.type w p.2.2 := by
  cases read with
  | @record _ e' _ _ pairs entry' type' required names each =>
    cases entry.symm.trans entry'
    cases type.symm.trans type'
    exact ⟨pairs, rfl, required, names, each⟩
  | _ => simp_all

theorem Follows.field (distinct : (declared.map Field.name).Nodup) {field : Field}
    (mem : field ∈ declared) {w : Json} (found : Assoc.get? members field.name = some w)
    (part : c.Follows field.type w f k) :
    c.Follows (.named name) (.object members)
      (fun _ => .object (Assoc.modify members field.name f))
      (Data.modifyPart k (.key field.name)) := by
  intro d read
  obtain ⟨pairs, rfl, required, names, each⟩ := reads_record entry type read
  have same (key) : (Assoc.modify members field.name f).contains key = Assoc.contains members key :=
    Assoc.contains_modify members field.name f key
  have present : presentFields declared (Assoc.modify members field.name f) =
      presentFields declared members := by
    simp only [presentFields, same]
  have unknown : undeclared declared (Assoc.modify members field.name f) =
      undeclared declared members := by
    refine Assoc.filter_modify (fun key => !Decode.declares declared key) members f ?_
    rw [Bool.not_eq_false', Decode.declares, List.any_eq_true]
    exact ⟨field, mem, beq_self_eq_true _⟩
  have fields : (Assoc.ofList pairs).modify field.name k =
      Assoc.ofList (Assoc.modify pairs field.name k) := Assoc.modify_ofList pairs field.name k
  change c.Reads _ _ (.record e.name ((Assoc.ofList pairs).modify field.name k) _)
  rw [fields, ← unknown]
  refine .record entry type
    (fun f' listed needed => (same f'.name).trans (required f' listed needed)) ?_ ?_
  · rw [present]
    exact names.trans (Assoc.keys_modify pairs field.name k).symm
  · rw [present, Assoc.modify]
    intro p changed w' found'
    rw [← List.map_id (presentFields declared members), List.zip_map] at changed
    obtain ⟨⟨f', key, d⟩, listed, rfl⟩ := List.mem_map.mp changed
    have own := Outcome.eq_of_mem_zip names listed
    dsimp only at own
    subst own
    have declares : f' ∈ declared := (List.mem_filter.mp (List.of_mem_zip listed).1).1
    change Assoc.get? (Assoc.modify members field.name f) f'.name = some w' at found'
    rw [Assoc.get?_modify] at found'
    by_cases eq : f'.name = field.name
    · obtain rfl : f' = field := List.inj_on_of_nodup_map distinct declares mem eq
      rw [if_pos rfl, found, Option.map_some, Option.some.injEq] at found'
      subst found'
      simpa using part d (each _ listed w found)
    · rw [if_neg eq] at found'
      simpa [eq] using each _ listed w' found'

/-- A member that a record does not declare is kept as it is, and nothing else changes. -/
theorem follows_setMember (sorted : Assoc.Sorted members) {key : String}
    (unknown : ∀ f ∈ declared, f.name ≠ key) (w : Json) :
    c.Follows (.named name) (.object members) (Json.setMember key w)
      (Data.modifyRecord (Record.setExtra key w)) := by
  intro d read
  obtain ⟨pairs, rfl, required, names, each⟩ := reads_record entry type read
  have same {f : Field} (mem : f ∈ declared) :
      (Assoc.insert members key w).get? f.name = Assoc.get? members f.name :=
    Assoc.get?_insert_of_ne members w (unknown f mem)
  have present : presentFields declared (Assoc.insert members key w) =
      presentFields declared members :=
    List.filter_congr fun f mem => congrArg Option.isSome (same mem)
  have kept : undeclared declared (Assoc.insert members key w) =
      Assoc.insert (undeclared declared members) key w := by
    refine sorted.filter_insert (fun key => !Decode.declares declared key) w ?_
    rw [Bool.not_eq_true', Decode.declares, List.any_eq_false]
    exact fun f mem => by simpa using unknown f mem
  change c.Reads _ _ (.record e.name _ (Assoc.insert (undeclared declared members) key w))
  rw [← kept]
  refine .record entry type
    (fun f mem needed => (congrArg Option.isSome (same mem)).trans (required f mem needed)) ?_ ?_
  · rw [present]
    exact names
  · rw [present]
    intro p listed w' found
    have mem : p.1 ∈ declared := (List.mem_filter.mp (List.of_mem_zip listed).1).1
    exact each p listed w' ((same mem).symm.trans found)

end Catalog

end TypedArchive
