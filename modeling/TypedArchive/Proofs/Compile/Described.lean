import Mathlib.Data.List.Sort
import TypedArchive.Proofs.Compile.WellFormed
import TypedArchive.Proofs.Schema.Locate

/-! The descriptions of enumerations. Repeated values are dropped, and so are descriptions that are no
texts, each for itself; what is left is put side by side if it is of one length. Both lists keep the
order of the schema, so they belong together exactly if texts stand at the places where values occur
first, and nowhere else. -/

namespace TypedArchive

/-- The places where the values of a list occur first are in order. -/
theorem pairwise_map_idxOf {α : Type} [BEq α] [LawfulBEq α] (xs : List α) :
    (xs.eraseDups.map fun x => xs.idxOf x).Pairwise (· < ·) := by
  induction xs using List.reverseRecOn with
  | nil => exact .nil
  | append_singleton xs x ih =>
    have before : xs.eraseDups.map (fun y => (xs ++ [x]).idxOf y) =
        xs.eraseDups.map fun y => xs.idxOf y := by
      refine List.map_congr_left fun y mem => ?_
      rw [List.idxOf_append_of_mem (List.mem_eraseDups.mp mem)]
    rw [List.eraseDups_append, List.map_append, before]
    by_cases repeated : x ∈ xs
    · have none : [x].removeAll xs = [] := by simp [List.removeAll, repeated]
      simpa [none] using ih
    · have one : [x].removeAll xs = [x] := by simp [List.removeAll, repeated]
      have last : [x].eraseDups.map (fun y => (xs ++ [x]).idxOf y) = [xs.length] := by
        simp [List.eraseDups_cons, List.idxOf_append_of_notMem repeated]
      rw [one, last]
      refine List.pairwise_append.mpr ⟨ih, List.pairwise_singleton _ _, fun i mem j mem' => ?_⟩
      obtain ⟨y, listed, rfl⟩ := List.mem_map.mp mem
      rw [List.mem_singleton.mp mem']
      exact List.idxOf_lt_length_of_mem (List.mem_eraseDups.mp listed)

namespace Json

/-- The texts of a list, each with its place. -/
def placedTexts (items : List Json) : List (String × Nat) :=
  items.zipIdx.filterMap fun p => p.1.asString?.map fun s => (s, p.2)

variable {items : List Json}

theorem asString?_eq_some {v : Json} {s : String} : v.asString? = some s ↔ v = .string s := by
  cases v <;> simp [asString?]

theorem mem_placedTexts {s : String} {i : Nat} :
    (s, i) ∈ placedTexts items ↔ items[i]? = some (.string s) := by
  simp only [placedTexts, List.mem_filterMap, Option.map_eq_some_iff, asString?_eq_some,
    Prod.mk.injEq, Prod.exists, List.mem_zipIdx_iff_getElem?]
  constructor
  · rintro ⟨v, j, found, t, rfl, rfl, rfl⟩
    exact found
  · exact fun found => ⟨_, _, found, s, rfl, rfl, rfl⟩

theorem mem_map_placedTexts {i : Nat} :
    i ∈ (placedTexts items).map Prod.snd ↔ (items[i]?.bind asString?).isSome = true := by
  simp only [List.mem_map, Prod.exists, exists_eq_right, mem_placedTexts, Option.isSome_iff_exists,
    Option.bind_eq_some_iff, asString?_eq_some, exists_eq_right]

theorem map_fst_placedTexts (items : List Json) :
    (placedTexts items).map Prod.fst = items.filterMap asString? := by
  rw [placedTexts, List.map_filterMap]
  have first (p : Json × Nat) :
      (p.1.asString?.map fun s => (s, p.2)).map Prod.fst = p.1.asString? := by
    cases p.1.asString? <;> rfl
  simp only [first]
  rw [← Function.comp_def asString? Prod.fst, ← List.filterMap_map, List.zipIdx_map_fst]

theorem pairwise_placedTexts (items : List Json) :
    ((placedTexts items).map Prod.snd).Pairwise (· < ·) := by
  have places : (items.zipIdx.map Prod.snd).Pairwise (· < ·) := by
    rw [List.zipIdx_map_snd]
    exact List.pairwise_lt_range'
  refine List.pairwise_map.mpr (List.pairwise_filterMap.mpr ?_)
  refine (List.pairwise_map.mp places).imp fun {p q} lt a ha b hb => ?_
  obtain ⟨s, -, rfl⟩ := Option.map_eq_some_iff.mp ha
  obtain ⟨t, -, rfl⟩ := Option.map_eq_some_iff.mp hb
  exact lt

end Json

/-- Places and marked texts that are both in order, and of one number, fit each other exactly if the
marks are the places. -/
theorem fits_iff_places {places : List Nat} {marked : List (String × Nat)}
    (ordered : places.Pairwise (· < ·)) (marks : (marked.map Prod.snd).Pairwise (· < ·))
    (length : places.length = marked.length) :
    (∀ p ∈ places.zip (marked.map Prod.fst), (p.2, p.1) ∈ marked) ↔
      ∀ i, i ∈ marked.map Prod.snd ↔ i ∈ places := by
  constructor
  · intro fits
    have sub : places ⊆ marked.map Prod.snd := fun i mem => by
      have same : places.length = (marked.map Prod.fst).length := by rw [List.length_map, length]
      obtain ⟨s, both⟩ := Outcome.exists_mem_zip same mem
      exact List.mem_map_of_mem (fits _ both)
    have nodup : places.Nodup := ordered.imp Nat.ne_of_lt
    have perm := (nodup.subperm sub).perm_of_length_le (by rw [List.length_map, length])
    exact fun i => perm.mem_iff.symm
  · intro same p mem
    have eq : marked.map Prod.snd = places := marks.eq_of_mem_iff ordered same
    rw [← eq, List.zip_map'] at mem
    obtain ⟨q, listed, rfl⟩ := List.mem_map.mp mem
    exact listed

theorem Literal.idxOf_toJson (literals : List Literal) (l : Literal) :
    (literals.map toJson).idxOf l.toJson = literals.idxOf l := by
  induction literals with
  | nil => rfl
  | cons m literals ih =>
    have same : (m.toJson == l.toJson) = (m == l) := by
      rw [Bool.eq_iff_iff, beq_iff_eq, beq_iff_eq]
      exact ⟨fun eq => Option.some.inj (by rw [← ofJson?_toJson, eq, ofJson?_toJson]),
        congrArg toJson⟩
    rw [List.map_cons, List.idxOf_cons, List.idxOf_cons, same, ih]

namespace Compile

/-- Descriptions that an enumeration keeps are as many as its values, and stand beside the values
they were written for exactly if texts were written where values occur first. -/
theorem enumOf_fits {n : Node} {values : List Literal} {descriptions : List String}
    (worded : n.Worded) (h : enumOf n = .ok (values, descriptions)) (kept : descriptions ≠ []) :
    ∃ items texts, n.schema.get? "enum" = some (.array items) ∧
      n.schema.get? "enumDescriptions" = some (.array texts) ∧
      descriptions = texts.filterMap Json.asString? ∧ descriptions.length = values.length ∧
      ((∀ p ∈ values.zip descriptions, texts[items.idxOf p.1.toJson]? = some (.string p.2)) ↔
        ∀ i, (texts[i]?.bind Json.asString?).isSome = true ↔
          ∃ l ∈ values, items.idxOf l.toJson = i) := by
  obtain ⟨literals, listed, rfl, said⟩ := exists_literals_of_enumOf h
  split at said
  · next length =>
    subst said
    obtain ⟨texts, written⟩ : ∃ texts, n.schema.get? "enumDescriptions" = some (.array texts) := by
      have descriptions := worded.descriptions
      rw [Graph.texts.eq_def] at descriptions
      split at descriptions
      · next texts written => exact ⟨texts, written⟩
      · exact absurd descriptions kept
    have said : n.enumDescriptions = texts.filterMap Json.asString? := by
      rw [worded.descriptions, written, Graph.texts]
    cases found : n.enumValues with
    | none =>
      rw [found, Option.getD_none, eq_comm, List.map_eq_nil_iff] at listed
      subst listed
      exact absurd (List.length_eq_zero_iff.mp length) kept
    | some items =>
      rw [found, Option.getD_some] at listed
      refine ⟨items, texts, worded.values items found, written, said, length, ?_⟩
      have fits := fits_iff_places (pairwise_map_idxOf literals) (Json.pairwise_placedTexts texts)
        (by rw [List.length_map, ← length, said, ← Json.map_fst_placedTexts, List.length_map])
      rw [Json.map_fst_placedTexts, ← said, List.zip_map_left, List.forall_mem_map] at fits
      simp only [Json.mem_map_placedTexts] at fits
      simp only [listed, Literal.idxOf_toJson]
      simpa only [Json.mem_placedTexts, List.mem_map, Prod.map_fst, Prod.map_snd, id] using fits
  · exact absurd said kept

variable {g : Graph} {c : Catalog} {names : Names} {pending : List PendingUnion}

/-- An enumeration is the entry of the node it came from. -/
theorem Compiled.enumeration (compiled : Compiled g c names pending) (owners : Owners g c names)
    {name : String} {e : Entry} (entry : c.get? name = some e) {values : List Literal}
    {descriptions : List String} (type : e.type = .enumeration values descriptions) :
    ∃ i, g.node? i = some (node g i) ∧ e.origin = (node g i).id ∧
      (node g i).kind = .enumeration ∧ enumOf (node g i) = .ok (values, descriptions) := by
  obtain ⟨-, i, owned, origin⟩ := owners.entries _ (Assoc.mem_of_get? entry)
  refine ⟨i, node?_of_lt (owners.nodes _ owned), origin, ?_⟩
  rcases compiled.defined owned entry with defines | ⟨u, -, -, -, resolved⟩
  · rw [type] at defines
    cases defines with
    | enumeration kind literals => exact ⟨kind, literals⟩
  · rw [type] at resolved
    cases resolved

end Compile

/-- An enumeration in a compiled catalog that keeps descriptions has one for each value. They are the
texts of its schema, in order, and each is the one at the place where its value occurs first exactly
if texts were written at these places and no others. -/
theorem Graph.descriptions_of_compile {b : Bundle} {g : Graph} (load : Graph.load b = .ok g)
    {c : Catalog} (compile : g.compile = .ok c) {name : String} {e : Entry}
    (entry : c.get? name = some e) {values : List Literal} {descriptions : List String}
    (type : e.type = .enumeration values descriptions) (kept : descriptions ≠ []) :
    ∃ i n items texts, g.node? i = some n ∧ e.origin = n.id ∧ n.kind = .enumeration ∧
      n.schema.get? "enum" = some (.array items) ∧
      n.schema.get? "enumDescriptions" = some (.array texts) ∧
      descriptions = texts.filterMap Json.asString? ∧ descriptions.length = values.length ∧
      ((∀ p ∈ values.zip descriptions, texts[items.idxOf p.1.toJson]? = some (.string p.2)) ↔
        ∀ i, (texts[i]?.bind Json.asString?).isSome = true ↔
          ∃ l ∈ values, items.idxOf l.toJson = i) := by
  obtain ⟨s, -, compiled, owners, -⟩ :=
    Compile.compile_owners (Graph.loaded_of_load load).1 compile
  obtain ⟨i, here, origin, kind, literals⟩ := compiled.enumeration owners entry type
  obtain ⟨text, v, slots, -, -, read⟩ := (Graph.located_of_load load).1.reads _
    (Array.mem_toList_iff.mpr (Array.mem_of_getElem? here))
  obtain ⟨items, texts, rest⟩ := Compile.enumOf_fits read.worded literals kept
  exact ⟨i, _, items, texts, here, origin, kind, rest⟩

set_option maxRecDepth 100000 in
/-- Descriptions with a gap where a value is repeated. -/
theorem Graph.descriptions_of_gap :
    let items : List Json := [.string "a", .string "a", .string "b"]
    let texts : List Json := [.string "First", .null, .string "Second"]
    let values : List Literal := [.string "a", .string "b"]
    let schema : Json := .object [("enum", .array items), ("enumDescriptions", .array texts)]
    ∃ g c e, Graph.load ⟨[("a.json", schema.render)]⟩ = .ok g ∧ g.compile = .ok c ∧
      c.get? "A" = some e ∧ e.type = .enumeration values ["First", "Second"] ∧
      ∀ p ∈ values.zip ["First", "Second"], texts[items.idxOf p.1.toJson]? = some (.string p.2) := by
  intro items texts values schema
  have runs : Bundle.compilesTo ⟨[("a.json", schema.render)]⟩ (fun g c => decide
      ((c.get? "A").map Entry.type = some (.enumeration values ["First", "Second"]) ∧
      g.nodes.toList.all (fun n => n.schema.get? "enum" == some (.array items) &&
        n.schema.get? "enumDescriptions" == some (.array texts)))) = true := by
    rw [Bundle.compilesTo_eq]
    decide +kernel
  obtain ⟨g, c, load, compile, h⟩ := Bundle.exists_of_compilesTo runs
  obtain ⟨entry, read⟩ := of_decide_eq_true h
  obtain ⟨e, entry, type⟩ := Option.map_eq_some_iff.mp entry
  refine ⟨g, c, e, load, compile, entry, type, ?_⟩
  obtain ⟨i, n, items', texts', here, -, -, enum, descriptions, -, -, fits⟩ :=
    Graph.descriptions_of_compile load compile entry type (by decide)
  have read := List.all_eq_true.mp read n (Array.mem_toList_iff.mpr (Array.mem_of_getElem? here))
  rw [enum, descriptions, Bool.and_eq_true, beq_iff_eq, beq_iff_eq, Option.some_inj, Option.some_inj,
    Json.array.injEq, Json.array.injEq] at read
  obtain ⟨rfl, rfl⟩ := read
  refine fits.mpr fun i => ?_
  have first : items.idxOf (Json.string "a") = 0 := by decide
  have third : items.idxOf (Json.string "b") = 2 := by decide
  rcases i with _ | _ | _ | i <;> simp [texts, values, Literal.toJson, first, third, Json.asString?]

set_option maxRecDepth 100000 in
/-- Descriptions without one, of which the second is put beside a value it was not written for. -/
theorem Graph.descriptions_of_repeat :
    let items : List Json := [.string "a", .string "a", .string "b"]
    let texts : List Json := [.string "First", .string "Second"]
    let values : List Literal := [.string "a", .string "b"]
    let schema : Json := .object [("enum", .array items), ("enumDescriptions", .array texts)]
    ∃ g c e, Graph.load ⟨[("a.json", schema.render)]⟩ = .ok g ∧ g.compile = .ok c ∧
      c.get? "A" = some e ∧ e.type = .enumeration values ["First", "Second"] ∧
      (.string "b", "Second") ∈ values.zip ["First", "Second"] ∧
      texts[items.idxOf (Literal.toJson (.string "b"))]? = none := by
  intro items texts values schema
  have runs : Bundle.compilesTo ⟨[("a.json", schema.render)]⟩ (fun _ c => decide
      ((c.get? "A").map Entry.type = some (.enumeration values ["First", "Second"]))) = true := by
    rw [Bundle.compilesTo_eq]
    decide +kernel
  obtain ⟨g, c, load, compile, h⟩ := Bundle.exists_of_compilesTo runs
  obtain ⟨e, entry, type⟩ := Option.map_eq_some_iff.mp (of_decide_eq_true h)
  exact ⟨g, c, e, load, compile, entry, type, by decide, by decide⟩

end TypedArchive
