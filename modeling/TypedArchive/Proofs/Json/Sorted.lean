import TypedArchive.Json.Parser
import TypedArchive.Proofs.Assoc
import TypedArchive.Proofs.Outcome

/-! Values whose objects keep their keys in order. Every value that is read from text is one. -/

namespace TypedArchive.Json

theorem itemsSorted_iff {items : List Json} : ItemsSorted items ↔ ∀ v ∈ items, v.Sorted := by
  induction items with
  | nil => simp [ItemsSorted]
  | cons v rest ih => rw [ItemsSorted, ih, List.forall_mem_cons]

theorem membersSorted_iff {members : List (String × Json)} :
    MembersSorted members ↔ ∀ p ∈ members, p.2.Sorted := by
  induction members with
  | nil => simp [MembersSorted]
  | cons p rest ih =>
    obtain ⟨k, v⟩ := p
    rw [MembersSorted, ih, List.forall_mem_cons]

theorem sorted_array {items : List Json} : (array items).Sorted ↔ ∀ v ∈ items, v.Sorted := by
  rw [Sorted, itemsSorted_iff]

theorem sorted_object {members : List (String × Json)} :
    (object members).Sorted ↔ Assoc.Sorted members ∧ ∀ p ∈ members, p.2.Sorted := by
  rw [Sorted, membersSorted_iff]

mutual

def decSorted : (v : Json) → Decidable v.Sorted
  | .array items => @decidable_of_iff _ _ (by rw [Sorted]) (decItemsSorted items)
  | .object members =>
    have := decMembersSorted members
    decidable_of_iff (Assoc.Sorted members ∧ MembersSorted members) (by rw [Sorted])
  | .null | .bool _ | .number _ | .string _ => isTrue (by simp [Sorted])

def decItemsSorted : (items : List Json) → Decidable (ItemsSorted items)
  | [] => isTrue (by simp [ItemsSorted])
  | v :: rest =>
    have := decSorted v
    have := decItemsSorted rest
    decidable_of_iff (v.Sorted ∧ ItemsSorted rest) (by rw [ItemsSorted])

def decMembersSorted : (members : List (String × Json)) → Decidable (MembersSorted members)
  | [] => isTrue (by simp [MembersSorted])
  | (k, v) :: rest =>
    have := decSorted v
    have := decMembersSorted rest
    decidable_of_iff (v.Sorted ∧ MembersSorted rest) (by rw [MembersSorted])

end

instance (v : Json) : Decidable v.Sorted := decSorted v

/-- What a reader gives at one place in the text is a sorted value. -/
def GivesSorted (result : Except ParseError (Json × Cursor)) : Prop :=
  ∀ v c', result = .ok (v, c') → v.Sorted

def ReadsSorted (element : Cursor → Except ParseError (Json × Cursor)) : Prop :=
  ∀ c, GivesSorted (element c)

theorem readItems_sorted {element : Cursor → Except ParseError (Json × Cursor)}
    (sorted : ReadsSorted element) {budget : Nat} {first : Bool} {read items : List Json}
    {c c' : Cursor} (before : ∀ v ∈ read, v.Sorted)
    (h : readItems element budget first read c = .ok (items, c')) : ∀ v ∈ items, v.Sorted := by
  induction budget generalizing first read c with
  | zero => cases h
  | succ budget ih =>
    have item {c : Cursor}
        (h : (element c >>= fun p => readItems element budget false (p.1 :: read) p.2) =
          .ok (items, c')) : ∀ v ∈ items, v.Sorted := by
      obtain ⟨⟨v, c₁⟩, hv, h⟩ := Outcome.bind_eq_ok.mp h
      exact ih (List.forall_mem_cons.mpr ⟨sorted _ _ _ hv, before⟩) h
    rw [readItems] at h
    split at h
    · cases h
    · cases h
      exact fun v mem => before v (List.mem_reverse.mp mem)
    · split at h
      · exact item h
      · split at h
        · dsimp only at h
          split at h
          · cases h
          · cases h
          · exact item h
        · cases h

theorem readMember_sorted {element : Cursor → Except ParseError (Json × Cursor)}
    (sorted : ReadsSorted element) {k : String} {v : Json} {c c' : Cursor}
    (h : readMember element c = .ok ((k, v), c')) : v.Sorted := by
  rw [readMember] at h
  obtain ⟨⟨key, c₁⟩, -, h⟩ := Outcome.bind_eq_ok.mp h
  dsimp only at h
  split at h
  · cases h
  · split at h
    · obtain ⟨⟨w, c₂⟩, hw, h⟩ := Outcome.bind_eq_ok.mp h
      cases h
      exact sorted _ _ _ hw
    · cases h

theorem readMembers_sorted {element : Cursor → Except ParseError (Json × Cursor)}
    (sorted : ReadsSorted element) {budget : Nat} {first : Bool} {read members : Assoc Json}
    {c c' : Cursor} (before : (object read).Sorted)
    (h : readMembers element budget first read c = .ok (members, c')) :
    (object members).Sorted := by
  induction budget generalizing first read c with
  | zero => cases h
  | succ budget ih =>
    have member {c : Cursor}
        (h : (readMember element c >>= fun p =>
          readMembers element budget false (read.insert p.1.1 p.1.2) p.2) = .ok (members, c')) :
        (object members).Sorted := by
      obtain ⟨⟨⟨k, v⟩, c₁⟩, hv, h⟩ := Outcome.bind_eq_ok.mp h
      refine ih (sorted_object.mpr ⟨(sorted_object.mp before).1.insert, fun p mem => ?_⟩) h
      rcases Assoc.mem_insert mem with rfl | mem
      · exact readMember_sorted sorted hv
      · exact (sorted_object.mp before).2 p mem
    rw [readMembers] at h
    split at h
    · cases h
    · split at h
      · cases h
        exact before
      · split at h
        · split at h
          · exact member h
          · cases h
        · split at h
          · dsimp only at h
            split at h
            · cases h
            · split at h
              · exact member h
              · split at h <;> cases h
          · cases h

theorem GivesSorted.error (e : ParseError) : GivesSorted (.error e) := by
  intro v c' h
  cases h

/-- A reader that chooses gives sorted values when both of its ways do. -/
theorem GivesSorted.ite {p : Prop} [Decidable p] {x y : Except ParseError (Json × Cursor)}
    (hx : GivesSorted x) (hy : GivesSorted y) : GivesSorted (if p then x else y) := by
  by_cases h : p
  · rwa [if_pos h]
  · rwa [if_neg h]

theorem readIdent_givesSorted {c : Cursor} {value : Json} (sorted : value.Sorted)
    (rest : List UInt8) : GivesSorted (readIdent c value rest) := by
  intro v c' h
  induction rest generalizing c with
  | nil =>
    cases h
    exact sorted
  | cons b rest ih =>
    rw [readIdent] at h
    split at h
    · cases h
    · split at h
      · exact ih h
      · cases h

theorem readNumber_givesSorted (negative : Bool) (c : Cursor) :
    GivesSorted (readNumber negative c) := by
  intro v c' h
  rw [readNumber] at h
  split at h
  · cases h
  · split at h
    · cases h
    · dsimp only at h
      split at h
      · cases h
      · obtain ⟨⟨fraction, c₁⟩, -, h⟩ := Outcome.bind_eq_ok.mp h
        obtain ⟨⟨exponent, c₂⟩, -, h⟩ := Outcome.bind_eq_ok.mp h
        dsimp only at h
        split at h
        · cases h
          simp [Sorted]
        · cases h

theorem readString_givesSorted (c : Cursor) :
    GivesSorted ((readString c).map fun p => (.string p.1, p.2)) := by
  intro v c' h
  obtain ⟨p, -, h⟩ := Outcome.map_eq_ok.mp h
  cases h
  simp [Sorted]

theorem readArray_givesSorted {element : Cursor → Except ParseError (Json × Cursor)}
    (sorted : ReadsSorted element) (budget : Nat) (c : Cursor) :
    GivesSorted ((readItems element budget true [] c).map fun p => (.array p.1, p.2)) := by
  intro v c' h
  obtain ⟨⟨items, c₁⟩, read, h⟩ := Outcome.map_eq_ok.mp h
  cases h
  exact sorted_array.mpr (readItems_sorted sorted (List.forall_mem_nil _) read)

theorem readObject_givesSorted {element : Cursor → Except ParseError (Json × Cursor)}
    (sorted : ReadsSorted element) (budget : Nat) (c : Cursor) :
    GivesSorted ((readMembers element budget true [] c).map fun p => (.object p.1, p.2)) := by
  intro v c' h
  obtain ⟨⟨members, c₁⟩, read, h⟩ := Outcome.map_eq_ok.mp h
  cases h
  exact readMembers_sorted sorted (by decide) read

theorem readValue_sorted (depth : Nat) : ReadsSorted (readValue depth) := by
  induction depth with
  | zero => exact fun c => .error _
  | succ depth ih =>
    intro c
    have null : Json.null.Sorted := by simp [Sorted]
    have bool (b : Bool) : (Json.bool b).Sorted := by simp [Sorted]
    change GivesSorted _
    rw [readValue]
    -- one step for each byte a value can start with, in the reader's order
    cases c.skipBlanks.rest with
    | nil => exact .error _
    | cons b rest =>
      refine .ite (readIdent_givesSorted null _) ?_
      refine .ite (readIdent_givesSorted (bool true) _) ?_
      refine .ite (readIdent_givesSorted (bool false) _) ?_
      refine .ite (readNumber_givesSorted _ _) ?_
      refine .ite (readNumber_givesSorted _ _) ?_
      refine .ite (readString_givesSorted _) ?_
      refine .ite (.ite (.error _) (readArray_givesSorted ih _ _)) ?_
      exact .ite (.ite (.error _) (readObject_givesSorted ih _ _)) (.error _)

/-- Text reads as a value in which every object's keys are in order. -/
theorem parseBytes_sorted {bytes : List UInt8} {v : Json} (h : parseBytes bytes = .ok v) :
    v.Sorted := by
  rw [parseBytes] at h
  obtain ⟨⟨w, c⟩, read, h⟩ := Outcome.bind_eq_ok.mp h
  dsimp only at h
  split at h
  · cases h
    exact readValue_sorted depthLimit _ _ _ read
  · cases h

end TypedArchive.Json
