import TypedArchive.Binding.Path
import TypedArchive.Proofs.Json.Sorted

/-! Places inside JSON values: the value at a place, and changes there. -/

namespace TypedArchive.Json

/-- The value at a place inside a value. -/
def at? : Json → FieldPath → Option Json
  | v, [] => some v
  | .object members, .key name :: rest => (Assoc.get? members name).bind fun w => w.at? rest
  | .array items, .index i :: rest => items[i]?.bind fun w => w.at? rest
  | _, _ :: _ => none

/-- Changes the value at a place; without such a place nothing changes. -/
def modifyAt (f : Json → Json) : FieldPath → Json → Json
  | [], v => f v
  | .key name :: rest, .object members => .object (Assoc.modify members name (modifyAt f rest))
  | .index i :: rest, .array items => .array (items.modify i (modifyAt f rest))
  | _ :: _, v => v

/-- Sets a member of an object. -/
def setMember (key : String) (w : Json) : Json → Json
  | .object members => .object (Assoc.insert members key w)
  | v => v

variable {v w : Json} {path : FieldPath} {f : Json → Json}

theorem at?_key {members : List (String × Json)} {key : String}
    (found : Assoc.get? members key = some w) (rest : FieldPath) :
    (object members).at? (.key key :: rest) = w.at? rest := by
  rw [at?, found, Option.bind_some]

theorem at?_index {items : List Json} {i : Nat} (found : items[i]? = some w) (rest : FieldPath) :
    (array items).at? (.index i :: rest) = w.at? rest := by
  rw [at?, found, Option.bind_some]

theorem at?_append (v : Json) (path rest : FieldPath) :
    v.at? (path ++ rest) = (v.at? path).bind fun w => w.at? rest := by
  induction path generalizing v with
  | nil =>
    cases rest <;> simp [at?]
  | cons s path ih =>
    cases v with
    | object members =>
      cases s with
      | key name => simp only [List.cons_append, at?, Option.bind_assoc, ih]
      | index i => rfl
    | array items =>
      cases s with
      | key name => rfl
      | index i => simp only [List.cons_append, at?, Option.bind_assoc, ih]
    | _ => cases s <;> rfl

/-- At the changed place stands the changed value. -/
theorem at?_modifyAt (h : v.at? path = some w) : (v.modifyAt f path).at? path = some (f w) := by
  induction path generalizing v with
  | nil =>
    cases h
    rfl
  | cons s path ih =>
    cases v with
    | object members =>
      cases s with
      | key name =>
        obtain ⟨inner, found, leads⟩ := Option.bind_eq_some_iff.mp h
        have changed : (Assoc.modify members name (modifyAt f path)).get? name =
            some (inner.modifyAt f path) := by
          rw [Assoc.get?_modify, if_pos rfl, found, Option.map_some]
        rw [modifyAt, at?_key changed]
        exact ih leads
      | index i => cases h
    | array items =>
      cases s with
      | key name => cases h
      | index i =>
        obtain ⟨inner, found, leads⟩ := Option.bind_eq_some_iff.mp h
        have changed : (items.modify i (modifyAt f path))[i]? = some (inner.modifyAt f path) := by
          rw [List.getElem?_modify, found]
          exact congrArg some (if_pos rfl)
        rw [modifyAt, at?_index changed]
        exact ih leads
    | _ => cases s <;> cases h

theorem at?_setMember {key : String} {members : List (String × Json)}
    (h : v.at? path = some (.object members)) :
    (v.modifyAt (setMember key w) path).at? (path.pushKey key) = some w := by
  have set : Assoc.get? (Assoc.insert members key w) key = some w :=
    Assoc.get?_insert_self members key w
  rw [FieldPath.pushKey, at?_append, at?_modifyAt h, Option.bind_some, setMember, at?_key set]
  rfl

theorem mem_modify {α : Type} {xs : List α} {i : Nat} {f : α → α} {x : α}
    (mem : x ∈ xs.modify i f) : ∃ y ∈ xs, x = y ∨ xs[i]? = some y ∧ x = f y := by
  obtain ⟨j, lt, rfl⟩ := List.mem_iff_getElem.mp mem
  rw [List.length_modify] at lt
  refine ⟨xs[j], List.getElem_mem lt, ?_⟩
  rw [List.getElem_modify]
  split
  · next eq =>
    subst eq
    exact .inr ⟨List.getElem?_eq_getElem lt, rfl⟩
  · exact .inl rfl

/-- Changes that keep objects in order leave the whole value in order. -/
theorem Sorted.modifyAt (each : ∀ w : Json, w.Sorted → (f w).Sorted) (h : v.Sorted) :
    (v.modifyAt f path).Sorted := by
  induction path generalizing v with
  | nil => exact each v h
  | cons s path ih =>
    cases v with
    | object members =>
      cases s with
      | key name =>
        obtain ⟨keys, values⟩ := sorted_object.mp h
        refine sorted_object.mpr ⟨keys.modify _, fun p mem => ?_⟩
        obtain ⟨q, listed, rfl⟩ := List.mem_map.mp mem
        split
        · exact ih (values q listed)
        · exact values q listed
      | index i => exact h
    | array items =>
      cases s with
      | key name => exact h
      | index i =>
        have items := sorted_array.mp h
        refine sorted_array.mpr fun w mem => ?_
        obtain ⟨y, listed, rfl | ⟨-, rfl⟩⟩ := mem_modify mem
        · exact items _ listed
        · exact ih (items y listed)
    | _ => cases s <;> exact h

theorem Sorted.setMember {key : String} (h : v.Sorted) (member : w.Sorted) :
    (setMember key w v).Sorted := by
  cases v with
  | object members =>
    obtain ⟨keys, values⟩ := sorted_object.mp h
    refine sorted_object.mpr ⟨keys.insert, fun p mem => ?_⟩
    rcases Assoc.mem_insert mem with rfl | mem
    · exact member
    · exact values p mem
  | _ => exact h

end TypedArchive.Json
