import TypedArchive.Proofs.Compile.Stable
import TypedArchive.Proofs.Compile.WellFormed
import TypedArchive.Proofs.Schema.Locate

/-! Which nodes count as definitions. The mark is read off the pointer, whose last but one segment is
a keyword below which definitions stand, or else the name of a schema that happens to be spelled
alike: the items and the further members of such a schema are marked as well. -/

namespace TypedArchive

namespace Slot

/-- The last slot is that of a definition. -/
def LeadToDefinition : List Slot → Prop
  | .member keyword _ _ :: _ => keyword = .definitions ∨ keyword = .defs
  | _ => False

/-- The last slots are those of the one schema below a keyword of a schema with a name, and the name
is spelled like a keyword for definitions. -/
def LeadBelowNamesake : List Slot → Prop
  | .whole _ _ :: .member _ _ name :: _ => name = "definitions" ∨ name = "$defs"
  | _ => False

end Slot

theorem Node.isDefinition_of_pointer {n : Node} {parent : Pointer} {segment key : String}
    (pointer : n.pointer = parent ++ [segment, key]) :
    n.isDefinition = true ↔ segment = "definitions" ∨ segment = "$defs" := by
  simp [isDefinition, pointer]

theorem Keyword.text_of_definitions {k : Keyword} :
    (k.text = "definitions" ∨ k.text = "$defs") ↔ k = .definitions ∨ k = .defs := by
  cases k <;> simp [text]

theorem Keyword.arrangement_of_definitions {k : Keyword}
    (h : k.text = "definitions" ∨ k.text = "$defs") : k.arrangement = .named := by
  rcases text_of_definitions.mp h with rfl | rfl <;> rfl

theorem not_toString_of_definitions {i : Nat} :
    ¬(toString i = "definitions" ∨ toString i = "$defs") := by
  have digits (c) (mem : c ∈ (toString i).toList) := Text.isDigit_of_mem_toString mem
  rintro (same | same)
  · have letter := digits 'd' (by simp [same])
    cases letter
  · have mark := digits '$' (by simp [same])
    cases mark

/-- A node is marked exactly if it stands in the slot of a definition, or below a namesake. -/
theorem Node.isDefinition_iff_slots {n : Node} {slots : List Slot}
    (pointer : n.pointer = Slot.pointer slots) :
    n.isDefinition = true ↔ Slot.LeadToDefinition slots ∨ Slot.LeadBelowNamesake slots := by
  cases slots with
  | nil => simp [isDefinition, pointer, Slot.pointer, Slot.LeadToDefinition, Slot.LeadBelowNamesake]
  | cons last above =>
    rw [Slot.pointer_cons] at pointer
    cases last with
    | member k fits name =>
      rw [isDefinition_of_pointer pointer, Keyword.text_of_definitions]
      exact (or_iff_left not_false).symm
    | branch k fits i =>
      refine iff_of_false (fun marked => ?_) (or_self_iff.mp)
      have named := Keyword.arrangement_of_definitions ((isDefinition_of_pointer pointer).mp marked)
      cases named.symm.trans fits
    | whole k fits =>
      cases above with
      | nil =>
        simp [isDefinition, pointer, Slot.pointer, Slot.segments, Slot.label,
          Slot.LeadToDefinition, Slot.LeadBelowNamesake]
      | cons owner above =>
        -- the segment before the keyword is the last one of the owner
        rw [Slot.pointer_cons] at pointer
        cases owner with
        | member k' fits' name =>
          have pointer : n.pointer = Slot.pointer above ++ [k'.text] ++ [name, k.text] := by
            rw [pointer, List.append_assoc, List.append_assoc]
            rfl
          rw [isDefinition_of_pointer pointer]
          exact (or_iff_right not_false).symm
        | whole k' fits' =>
          have pointer : n.pointer = Slot.pointer above ++ [k'.text, k.text] := by
            rw [pointer, List.append_assoc]
            rfl
          refine iff_of_false (fun marked => ?_) (or_self_iff.mp)
          have named :=
            Keyword.arrangement_of_definitions ((isDefinition_of_pointer pointer).mp marked)
          cases named.symm.trans fits'
        | branch k' fits' i =>
          have pointer : n.pointer =
              Slot.pointer above ++ [k'.text] ++ [toString i, k.text] := by
            rw [pointer, List.append_assoc, List.append_assoc]
            rfl
          refine iff_of_false (fun marked => ?_) (or_self_iff.mp)
          exact not_toString_of_definitions ((isDefinition_of_pointer pointer).mp marked)

namespace Compile

/-- A node that has no name from the start and gets an entry where it stands inside another type. -/
def Hoisted (g : Graph) (i : Nat) : Prop := i ∉ namedNodes g ∧ hoists (node g i) = true

theorem reserve_names {g : Graph} {nodes : List Nat} {s s' : State} {names : Names}
    (h : (nodes.mapM fun i => do
      return (i, ← reserveName i (TypeName.preferred (node g i))) : Build Names) s =
        .ok (names, s')) : ∀ p ∈ s'.names, p ∈ names ∨ p ∈ s.names := by
  induction nodes generalizing s names with
  | nil =>
    cases h
    exact fun p mem => .inr mem
  | cons i nodes ih =>
    rw [List.mapM_cons] at h
    obtain ⟨own, s₁, first, others⟩ := Outcome.bind_run_eq_ok.mp h
    obtain ⟨rest, s₂, run, last⟩ := Outcome.bind_run_eq_ok.mp others
    cases last
    cases first
    intro p mem
    rcases ih run p mem with later | before
    · exact .inl (List.mem_cons_of_mem _ later)
    · rcases List.mem_cons.mp before with rfl | before
      · exact .inl List.mem_cons_self
      · exact .inr before

section Moment

variable {g : Graph} {s : State}

theorem Later.owner {s₀ : State} (later : Later g s₀ s)
    (start : ∀ p ∈ s₀.names, p.1 ∈ namedNodes g) :
    ∀ p ∈ s.names, p.1 ∈ namedNodes g ∨ hoists (node g p.1) = true := by
  induction later with
  | refl => exact fun p mem => .inl (start p mem)
  | tail _ step ih =>
    cases step with
    | own hint unnamed needs => exact List.forall_mem_cons.mpr ⟨.inr needs, ih⟩
    | enter | queue => exact ih

/-- While a graph is compiled only such nodes get a name as are named from the start, or need an
entry. -/
theorem Moment.owner (loaded : g.Loaded) (moment : Moment g s) :
    ∀ p ∈ s.names, p.1 ∈ namedNodes g ∨ hoists (node g p.1) = true := by
  obtain ⟨names, s₀, run, later⟩ := moment
  obtain ⟨names', s₀', run', -, -, nodes⟩ := reserveNames_owned loaded
  cases run.symm.trans run'
  refine later.owner fun p mem => ?_
  have reserved := (reserve_names run p mem).resolve_right List.not_mem_nil
  exact nodes ▸ List.mem_map_of_mem reserved

end Moment

theorem of_mem_namedNodes {g : Graph} {i : Nat} (mem : i ∈ namedNodes g) :
    (node g i).pointer = [] ∨ (node g i).isDefinition = true ∨ ∃ j, g.refTarget? j = some i := by
  have found := (List.mem_filter.mp mem).2
  simp only [Bool.or_eq_true, Bool.and_eq_true, List.contains_iff_mem, List.mem_filterMap,
    Node.isRoot, List.isEmpty_iff] at found
  rcases found with (⟨root, -⟩ | marked) | ⟨j, -, target⟩
  · exact .inl root
  · exact .inr (.inl marked)
  · exact .inr (.inr ⟨j, target⟩)

/-- Whose the entries of a compiled catalog are. -/
theorem origin_of_compile {g : Graph} (loaded : g.Loaded) {c : Catalog} (compile : g.compile = .ok c)
    {p : String × Entry} (mem : p ∈ c.entries) : ∃ i n, g.node? i = some n ∧ p.2.origin = n.id ∧
      (n.pointer = [] ∨ n.isDefinition = true ∨ (∃ j, g.refTarget? j = some i) ∨ Hoisted g i) := by
  obtain ⟨s, build, -, owners, -⟩ := compile_owners loaded compile
  obtain ⟨-, i, owned, origin⟩ := owners.entries p mem
  refine ⟨i, node g i, node?_of_lt (owners.nodes _ owned), origin, ?_⟩
  by_cases named : i ∈ namedNodes g
  · rcases of_mem_namedNodes named with root | marked | target
    · exact .inl root
    · exact .inr (.inl marked)
    · exact .inr (.inr (.inl target))
  · have needs := ((moment_of_buildEntries build).owner loaded _ owned).resolve_left named
    exact .inr (.inr (.inr ⟨named, needs⟩))

end Compile

/-- In a loaded graph each node is read below slots of its own, and is marked as a definition exactly
if the last of them is the slot of one or the node is the one schema below a keyword of a schema
whose name is spelled like a keyword for definitions. So every entry of the compiled catalog is of a
root, of the target of a reference, of a node that is hoisted, or of one of these two. -/
theorem Graph.definitions_of_load {b : Bundle} {g : Graph} (load : Graph.load b = .ok g) :
    (∀ i n, g.node? i = some n → ∃ text v slots, (n.document, text) ∈ b.documents ∧
      Json.parseBytes text.toUTF8.toList = .ok v ∧ n.ReadAt v slots ∧
      (∀ other, n.pointer = Slot.pointer other → other = slots) ∧
      (n.isDefinition = true ↔ Slot.LeadToDefinition slots ∨ Slot.LeadBelowNamesake slots)) ∧
    ∀ c, g.compile = .ok c → ∀ p ∈ c.entries, ∃ i n, g.node? i = some n ∧ p.2.origin = n.id ∧
      (n.pointer = [] ∨ (∃ j, g.refTarget? j = some i) ∨ Compile.Hoisted g i ∨
        ∃ v slots, n.ReadAt v slots ∧
          (Slot.LeadToDefinition slots ∨ Slot.LeadBelowNamesake slots)) := by
  have reads {i n} (here : g.node? i = some n) :=
    (Graph.located_of_load load).1.reads n (Array.mem_toList_iff.mpr (Array.mem_of_getElem? here))
  refine ⟨fun i n here => ?_, fun c compile p mem => ?_⟩
  · obtain ⟨text, v, slots, listed, parsed, read⟩ := reads here
    refine ⟨text, v, slots, listed, parsed, read, fun other same => ?_,
      Node.isDefinition_iff_slots read.pointer⟩
    exact Slot.pointer_injective (same.symm.trans read.pointer)
  · obtain ⟨i, n, here, origin, owner⟩ :=
      Compile.origin_of_compile (Graph.loaded_of_load load).1 compile mem
    refine ⟨i, n, here, origin, ?_⟩
    rcases owner with root | marked | target | hoisted
    · exact .inl root
    · obtain ⟨text, v, slots, -, -, read⟩ := reads here
      exact .inr (.inr (.inr ⟨v, slots, read, (Node.isDefinition_iff_slots read.pointer).mp marked⟩))
    · exact .inr (.inl target)
    · exact .inr (.inr (.inl hoisted))

set_option maxRecDepth 100000 in
/-- A definition and a property with the names of keywords, an enumeration that is hoisted, and the
target of a reference. -/
theorem Graph.definitions_of_namesakes :
    let ref : Json := .object [("$ref", .string "#/definitions/$defs")]
    let letters : Json := .object [("enum", .array [.string "a", .string "b"])]
    let schema : Json := .object
      [("definitions", .object [("$defs", .object [("items", .object [("type", .string "string")])])]),
        ("properties", .object [("definitions", .object [("items", ref)]),
          ("items", .object [("additionalProperties", letters)])])]
    ∃ g c, Graph.load ⟨[("a.json", schema.render)]⟩ = .ok g ∧ g.compile = .ok c ∧
      c.entries.values.map Entry.origin = ["a.json#", "a.json#/properties/items/additionalProperties",
        "a.json#/definitions/$defs", "a.json#/definitions/$defs/items",
        "a.json#/properties/definitions/items"] ∧
      (∀ i n, g.node? i = some n → ∃ slots, n.pointer = Slot.pointer slots ∧
        (n.isDefinition = true ↔ Slot.LeadToDefinition slots ∨ Slot.LeadBelowNamesake slots)) ∧
      ∀ p ∈ c.entries, ∃ i n, g.node? i = some n ∧ p.2.origin = n.id ∧
        (n.pointer = [] ∨ (∃ j, g.refTarget? j = some i) ∨ Compile.Hoisted g i ∨
          ∃ v slots, n.ReadAt v slots ∧
            (Slot.LeadToDefinition slots ∨ Slot.LeadBelowNamesake slots)) := by
  intro ref letters schema
  have runs : Bundle.compilesTo ⟨[("a.json", schema.render)]⟩ (fun _ c => decide
      (c.entries.values.map Entry.origin = ["a.json#",
        "a.json#/properties/items/additionalProperties", "a.json#/definitions/$defs",
        "a.json#/definitions/$defs/items", "a.json#/properties/definitions/items"])) = true := by
    rw [Bundle.compilesTo_eq]
    decide +kernel
  obtain ⟨g, c, load, compile, h⟩ := Bundle.exists_of_compilesTo runs
  obtain ⟨marks, owners⟩ := Graph.definitions_of_load load
  refine ⟨g, c, load, compile, of_decide_eq_true h, fun i n here => ?_, owners c compile⟩
  obtain ⟨text, v, slots, -, -, read, -, marked⟩ := marks i n here
  exact ⟨slots, read.pointer, marked⟩

set_option maxRecDepth 100000 in
/-- The items of a property called `definitions` are marked, stand in no slot of a definition, and
get an entry, though they are no root, nothing refers to them and their kind needs no entry. -/
theorem Graph.definition_of_items :
    let list : Json := .object [("items", .object [("type", .string "string")])]
    let schema : Json := .object [("properties", .object [("definitions", list)])]
    ∃ g c i n, Graph.load ⟨[("a.json", schema.render)]⟩ = .ok g ∧ g.compile = .ok c ∧
      g.node? i = some n ∧ n.isDefinition = true ∧
      (∀ slots, n.pointer = Slot.pointer slots → ¬Slot.LeadToDefinition slots) ∧
      (∃ p ∈ c.entries, p.2.origin = n.id) ∧ n.pointer ≠ [] ∧
      (∀ j, g.refTarget? j ≠ some i) ∧ Compile.hoists n = false := by
  intro list schema
  have runs : Bundle.compilesTo ⟨[("a.json", schema.render)]⟩ (fun g c => decide
      ((g.node? 0).map (fun n => (n.pointer, n.isDefinition, Compile.hoists n)) =
        some (["properties", "definitions", "items"], true, false) ∧
      (g.node? 0).map Node.id = (c.get? "Items").map Entry.origin ∧
      g.nodes.toList.all (fun n => n.reference.isNone))) = true := by
    rw [Bundle.compilesTo_eq]
    decide +kernel
  obtain ⟨g, c, load, compile, h⟩ := Bundle.exists_of_compilesTo runs
  obtain ⟨place, own, plain⟩ := of_decide_eq_true h
  obtain ⟨n, here, place⟩ := Option.map_eq_some_iff.mp place
  rw [Prod.mk.injEq, Prod.mk.injEq] at place
  obtain ⟨pointer, marked, needs⟩ := place
  rw [here, Option.map_some, eq_comm, Option.map_eq_some_iff] at own
  obtain ⟨e, entry, origin⟩ := own
  refine ⟨g, c, 0, n, load, compile, here, marked, fun slots same => ?_,
    ⟨_, Assoc.mem_of_get? entry, origin⟩, by simp [pointer], fun j target => ?_, needs⟩
  · have slots_eq : slots = [.whole .items rfl, .member .properties rfl "definitions"] :=
      Slot.pointer_injective (same.symm.trans pointer)
    rw [slots_eq]
    exact not_false
  · obtain ⟨m, there, leads⟩ := Option.bind_eq_some_iff.mp target
    have none := List.all_eq_true.mp plain m
      (Array.mem_toList_iff.mpr (Array.mem_of_getElem? there))
    rw [Option.isNone_iff_eq_none] at none
    rw [none] at leads
    cases leads

end TypedArchive
