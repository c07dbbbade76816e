import Mathlib.Data.List.Perm.Basic
import TypedArchive.Proofs.Archive.Removal
import TypedArchive.Proofs.Outcome

/-! The identifier of a document is the exclusive or of those of its listed pages, in 32 digits. The
order of the pages does not matter, and a page comes in and goes out by one more exclusive or. -/

namespace TypedArchive.Archive

namespace Uuid

/-- The exclusive or of several identifiers. -/
def xorAll (us : List Uuid) : Uuid := us.foldr (· ^^^ ·) 0

theorem xor_xor_cancel (u v : Uuid) : u ^^^ v ^^^ u = v := by
  rw [BitVec.xor_comm u v, BitVec.xor_assoc, BitVec.xor_self, BitVec.xor_zero]

/-- A text of 32 digits, capitals among them, that has a given value. -/
structure Spells (text : String) (u : Uuid) : Prop where
  length : text.toList.length = 32
  digits : ∀ c ∈ text.toList, ('0' ≤ c ∧ c ≤ '9') ∨ ('A' ≤ c ∧ c ≤ 'F')
  value : (text.toList.mapM digitValue?).map Uuid.value = some u.toNat

theorem digitValue?_digit : ∀ n < 16, digitValue? (digit n) = some n := by decide

theorem digit_capital : ∀ n < 16,
    ('0' ≤ digit n ∧ digit n ≤ '9') ∨ ('A' ≤ digit n ∧ digit n ≤ 'F') := by decide

theorem value_concat (ds : List Nat) (d : Nat) : value (ds ++ [d]) = value ds * 16 + d := by
  rw [value, List.foldl_append]
  rfl

/-- The first digits of an identifier are those of its leading part. -/
theorem value_leading (u : Uuid) {k : Nat} (le : k ≤ 32) :
    value ((List.range k).map fun i => (u.toNat >>> (4 * (31 - i))) % 16) =
      u.toNat >>> (4 * (32 - k)) := by
  induction k with
  | zero =>
    have none : u.toNat >>> 128 = 0 := by rw [Nat.shiftRight_eq_div_pow, Nat.div_eq_of_lt u.isLt]
    exact none.symm
  | succ k ih =>
    have next : 4 * (32 - k) = 4 * (31 - k) + 4 := by omega
    have last : 32 - (k + 1) = 31 - k := by omega
    rw [List.range_succ, List.map_append, List.map_singleton, value_concat, ih (by omega), next,
      last, Nat.shiftRight_add, Nat.shiftRight_eq_div_pow _ 4]
    omega

theorem spells_text (u : Uuid) : Spells u.text u := by
  have small (i : Nat) : (u.toNat >>> (4 * (31 - i))) % 16 < 16 := Nat.mod_lt _ (by decide)
  have digits : u.text.toList =
      (List.range 32).map fun i => digit ((u.toNat >>> (4 * (31 - i))) % 16) := by
    rw [text, String.toList_ofList]
  refine ⟨?_, ?_, ?_⟩
  · rw [digits, List.length_map, List.length_range]
  · intro c mem
    rw [digits] at mem
    obtain ⟨i, -, rfl⟩ := List.mem_map.mp mem
    exact digit_capital _ (small i)
  · have read : u.text.toList.mapM digitValue? =
        some ((List.range 32).map fun i => (u.toNat >>> (4 * (31 - i))) % 16) := by
      rw [digits, Outcome.mapM_eq_some, List.forall₂_map_left_iff, List.forall₂_map_right_iff,
        List.forall₂_same]
      exact fun i _ => digitValue?_digit _ (small i)
    rw [read, Option.map_some, u.value_leading (Nat.le_refl 32)]
    rfl

end Uuid

namespace Contents

variable {g g' : Contents} {ids ids' : List String} {id : String} {page : Record} {x u : Uuid}

theorem objectId_eq_ok {t : String} : g.objectId = .ok t ↔
    ∃ ids x, g.pageIds = .ok ids ∧ g.xorIds ids = .ok x ∧ t = x.text := by
  rw [objectId, Outcome.bind_eq_ok]
  simp only [Outcome.bind_eq_ok, Outcome.pure_eq_ok]
  constructor
  · rintro ⟨ids, listed, x, xor, rfl⟩
    exact ⟨ids, x, listed, xor, rfl⟩
  · rintro ⟨ids, x, listed, xor, rfl⟩
    exact ⟨ids, listed, x, xor, rfl⟩

theorem xorIds_cons_eq_ok : g.xorIds (id :: ids) = .ok x ↔
    ∃ u, g.pageUuid id = .ok u ∧ ∃ v, g.xorIds ids = .ok v ∧ u ^^^ v = x := by
  simp only [xorIds, Outcome.bind_eq_ok, Outcome.pure_eq_ok]

theorem xorIds_eq_ok : g.xorIds ids = .ok x ↔
    ∃ us, List.Forall₂ (fun id u => g.pageUuid id = .ok u) ids us ∧ x = Uuid.xorAll us := by
  induction ids generalizing x with
  | nil =>
    simp only [List.forall₂_nil_left_iff, exists_eq_left]
    exact ⟨fun h => (Except.ok.inj h).symm, fun h => congrArg Except.ok h.symm⟩
  | cons id ids ih =>
    rw [xorIds_cons_eq_ok]
    simp only [ih, List.forall₂_cons_left_iff]
    constructor
    · rintro ⟨u, own, v, ⟨us, others, rfl⟩, rfl⟩
      exact ⟨u :: us, ⟨u, us, own, others, rfl⟩, rfl⟩
    · rintro ⟨-, ⟨u, us, own, others, rfl⟩, rfl⟩
      exact ⟨u, own, Uuid.xorAll us, ⟨us, others, rfl⟩, rfl⟩

/-- The order of the pages does not matter. -/
theorem xorIds_perm (perm : ids.Perm ids') (xor : g.xorIds ids = .ok x) :
    g.xorIds ids' = .ok x := by
  induction perm generalizing x with
  | nil => exact xor
  | cons id _ ih =>
    obtain ⟨u, own, v, rest, eq⟩ := xorIds_cons_eq_ok.mp xor
    exact xorIds_cons_eq_ok.mpr ⟨u, own, v, ih rest, eq⟩
  | swap a b ids =>
    obtain ⟨u, first, _, tail, rfl⟩ := xorIds_cons_eq_ok.mp xor
    obtain ⟨v, second, w, rest, rfl⟩ := xorIds_cons_eq_ok.mp tail
    refine xorIds_cons_eq_ok.mpr ⟨v, second, u ^^^ w, ?_, by ac_rfl⟩
    exact xorIds_cons_eq_ok.mpr ⟨u, first, w, rest, rfl⟩
  | trans _ _ first second => exact second (first xor)

/-- Only the bodies of the pages matter, and the key of the identifier in them. -/
theorem xorIds_congr (references : g'.references = g.references)
    (bodies : ∀ id ∈ ids, g'.page? id = g.page? id) : g'.xorIds ids = g.xorIds ids := by
  induction ids with
  | nil => rfl
  | cons id ids ih =>
    have own : g'.pageUuid id = g.pageUuid id := by
      have body : g'.pages.get? id = g.pages.get? id := bodies id List.mem_cons_self
      rw [pageUuid, pageUuid, body, references]
    rw [xorIds, xorIds, own, ih fun id' mem => bodies id' (List.mem_cons_of_mem _ mem)]

theorem pageUuid_of_own (body : g.page? id = some page)
    (own : page.getString? g.references.pageIdField = some id) (read : Uuid.parse? id = some u) :
    g.pageUuid id = .ok u := by
  have body' : g.pages.get? id = some page := body
  rw [pageUuid, body']
  dsimp only
  rw [own, Option.getD_some, read]

/-- A page list in another order lists the same pages in another order. -/
theorem exists_perm_of_listedIds {conv : ReferenceConvention} {items items' : List Data}
    (perm : items.Perm items') (listed : listedIds conv 0 items = .ok ids) :
    ∃ ids', ids.Perm ids' ∧ listedIds conv 0 items' = .ok ids' := by
  have refs : (items'.map (listedId? conv)).Perm (ids.map some) := by
    rw [← listedIds_eq_ok.mp listed]
    exact (perm.map _).symm
  obtain ⟨ids', listed', perm'⟩ : Relation.Comp (fun refs ids => refs = List.map some ids) List.Perm
      (items'.map (listedId? conv)) ids := by
    rw [List.eq_map_comp_perm]
    exact refs
  exact ⟨ids', perm'.symm, listedIds_eq_ok.mpr listed'⟩

theorem objectId_relist {items items' : List Data} (perm : items.Perm items')
    (list : g.document.get? g.references.pagesField = some (.array items)) {t : String}
    (ok : g.objectId = .ok t) : (g.relist items').objectId = .ok t := by
  obtain ⟨ids, x, listed, xor, rfl⟩ := objectId_eq_ok.mp ok
  rw [pageIds, list] at listed
  obtain ⟨ids', perm', listed'⟩ := exists_perm_of_listedIds perm listed
  refine objectId_eq_ok.mpr ⟨ids', x, (g.pageIds_relist items').trans listed', ?_, rfl⟩
  have same := xorIds_perm perm' xor
  rw [← same]
  exact xorIds_congr rfl fun _ _ => rfl

theorem objectId_insertPage (listed : g.pageIds = .ok ids) (xor : g.xorIds ids = .ok x)
    (distinct : g.references.KeysDistinct) (fresh : g.Fresh page id)
    (read : Uuid.parse? id = some u) :
    ∃ g', g.insertPage page = .ok (id, g') ∧ g'.objectId = .ok (x ^^^ u).text := by
  have new := fresh.not_mem listed
  obtain ⟨g', inserts, inserted⟩ :
      ∃ g', g.insertPage page = .ok (id, g') ∧ Inserted ids page id g g' :=
    ⟨_, insertPage_eq_ok listed fresh.own, inserted listed fresh.own⟩
  have references := inserted.beside.references
  have list := inserted.listed (Or.inr ⟨fresh.flat, distinct.keepsClass id⟩)
  rw [listWith, if_neg new] at list
  refine ⟨g', inserts, ?_⟩
  refine objectId_eq_ok.mpr ⟨ids ++ [id], x ^^^ u, list, ?_, rfl⟩
  refine xorIds_perm (List.perm_append_singleton id ids).symm ?_
  refine xorIds_cons_eq_ok.mpr ⟨u, ?_, x, ?_, BitVec.xor_comm u x⟩
  · exact pageUuid_of_own inserted.body (references ▸ fresh.own) read
  · rw [xorIds_congr references fun other mem =>
      inserted.beside.pages other fun eq => new (eq ▸ mem)]
    exact xor

theorem perm_of_count_eq_one (once : ids.count id = 1) :
    ids.Perm (id :: ids.filter (· != id)) := by
  have own : ids.filter (· == id) = [id] := by rw [List.filter_beq, once]; rfl
  have parts := List.filter_append_perm (· == id) ids
  rw [own] at parts
  exact parts.symm

theorem objectId_removePage (listed : g.pageIds = .ok ids) (xor : g.xorIds ids = .ok x)
    (once : ids.count id = 1) :
    ∃ u, g.pageUuid id = .ok u ∧ (g.removePage id).objectId = .ok (x ^^^ u).text := by
  obtain ⟨u, own, v, rest, rfl⟩ := xorIds_cons_eq_ok.mp
    (xorIds_perm (perm_of_count_eq_one once) xor)
  have removed := removed listed id
  have references : (g.removePage id).references = g.references :=
    (congrArg Contents.references removed.rest :)
  refine ⟨u, own, objectId_eq_ok.mpr ⟨_, v, removed.listed, ?_, ?_⟩⟩
  · rw [xorIds_congr references fun other mem => ?_]
    · exact rest
    · rw [removed.bodies, if_neg (bne_iff_ne.mp (List.mem_filter.mp mem).2)]
  · rw [Uuid.xor_xor_cancel]

/-- The identifier of a document spells the exclusive or of those of its listed pages in 32 digits.
The order of the list does not matter; a page that is inserted adds its identifier, and one that was
listed once takes out again the identifier it was counted with. -/
theorem objectId_exact {t : String} (ok : g.objectId = .ok t) :
    ∃ ids us x, g.pageIds = .ok ids ∧
      List.Forall₂ (fun id u => g.pageUuid id = .ok u) ids us ∧ x = Uuid.xorAll us ∧
      t = x.text ∧ Uuid.Spells t x ∧
      (∀ items items', g.document.get? g.references.pagesField = some (.array items) →
        items.Perm items' → (g.relist items').objectId = .ok t) ∧
      (∀ page id u, g.references.KeysDistinct → g.Fresh page id → Uuid.parse? id = some u →
        ∃ g', g.insertPage page = .ok (id, g') ∧ g'.objectId = .ok (x ^^^ u).text) ∧
      ∀ id, ids.count id = 1 →
        ∃ u, g.pageUuid id = .ok u ∧ (g.removePage id).objectId = .ok (x ^^^ u).text := by
  obtain ⟨ids, x, listed, xor, rfl⟩ := objectId_eq_ok.mp ok
  obtain ⟨us, uuids, all⟩ := xorIds_eq_ok.mp xor
  refine ⟨ids, us, x, listed, uuids, all, rfl, x.spells_text, ?_, ?_, ?_⟩
  · exact fun items items' list perm => objectId_relist perm list ok
  · exact fun page id u distinct fresh read => objectId_insertPage listed xor distinct fresh read
  · exact fun id once => objectId_removePage listed xor once

/-- Two pages whose identifiers are spelled differently, one of them in its body only. -/
def spelled : Contents :=
  let conv : ReferenceConvention := {}
  { document :=
      { typeName := "Document"
        fields := [("pages", .array
          [(conv.pageRef "one").toData,
            (conv.pageRef "0000000000000000000000000000000A").toData])] }
    metadata := { typeName := "Meta" }
    pages := [("0000000000000000000000000000000A", blankPage "0000000000000000000000000000000A"),
      ("one", blankPage "00000000-0000-0000-0000-0000000000ff")] }

theorem objectId_spelled :
    spelled.objectId = .ok "000000000000000000000000000000F5" ∧
      (∃ g', spelled.insertPage (blankPage "+0000000-00000000-00000000-0000000b") =
          .ok ("+0000000-00000000-00000000-0000000b", g') ∧
        g'.objectId = .ok "000000000000000000000000000000FE") ∧
      (spelled.removePage "one").objectId = .ok "0000000000000000000000000000000A" := by
  have ok : spelled.objectId = .ok "000000000000000000000000000000F5" := by decide
  obtain ⟨ids, us, x, listed, -, -, -, spells, -, insert, remove⟩ := objectId_exact ok
  have value : x.toNat = 0xF5 := Option.some.inj (spells.value.symm.trans (by decide))
  obtain rfl : x = 0xF5#128 := BitVec.eq_of_toNat_eq value
  have ids_eq : ids = ["one", "0000000000000000000000000000000A"] :=
    Except.ok.inj (listed.symm.trans (by decide))
  refine ⟨ok, ?_, ?_⟩
  · obtain ⟨g', inserts, after⟩ := insert (blankPage "+0000000-00000000-00000000-0000000b")
      "+0000000-00000000-00000000-0000000b" 0xB#128 (by decide)
      { own := by decide, flat := by decide, unlisted := by decide, bodiless := by decide }
      (by decide)
    have text : Uuid.text (0xF5#128 ^^^ 0xB#128) = "000000000000000000000000000000FE" := by decide
    exact ⟨g', inserts, text ▸ after⟩
  · obtain ⟨u, own, after⟩ := remove "one" (by rw [ids_eq]; decide)
    obtain rfl : u = 0xFF#128 := Except.ok.inj (own.symm.trans (by decide))
    have text : Uuid.text (0xF5#128 ^^^ 0xFF#128) = "0000000000000000000000000000000A" := by decide
    exact text ▸ after

end Contents

end TypedArchive.Archive
