import TypedArchive.Proofs.Schema.Evaluate

/-! The ways from a schema down to the schemas inside it. Names and patterns are any texts, also the
texts of keywords; the keyword that comes first says which segments of a pointer belong together, so
a pointer spells one way at most. -/

namespace TypedArchive

/-- A keyword below which schemas stand. -/
inductive Keyword where
  | definitions | defs | properties | patternProperties
  | items | additionalProperties
  | allOf | oneOf | anyOf
  deriving DecidableEq, Repr

/-- How schemas stand below a keyword: under names, alone or in an array. -/
inductive Arrangement where
  | named | single | listed
  deriving DecidableEq, Repr

namespace Keyword

def text : Keyword → String
  | .definitions => "definitions"
  | .defs => "$defs"
  | .properties => "properties"
  | .patternProperties => "patternProperties"
  | .items => "items"
  | .additionalProperties => "additionalProperties"
  | .allOf => "allOf"
  | .oneOf => "oneOf"
  | .anyOf => "anyOf"

def arrangement : Keyword → Arrangement
  | .definitions | .defs | .properties | .patternProperties => .named
  | .items | .additionalProperties => .single
  | .allOf | .oneOf | .anyOf => .listed

theorem text_injective : Function.Injective text := by
  intro k k' same
  cases k <;> cases k' <;> first | rfl | simp [text] at same

end Keyword

/-- A place for a schema in another one. -/
inductive Slot where
  | member (keyword : Keyword) (fits : keyword.arrangement = .named) (name : String)
  | whole (keyword : Keyword) (fits : keyword.arrangement = .single)
  | branch (keyword : Keyword) (fits : keyword.arrangement = .listed) (index : Nat)

namespace Slot

def keyword : Slot → Keyword
  | .member k _ _ | .whole k _ | .branch k _ _ => k

/-- What follows the keyword in a pointer. -/
def label : Slot → Pointer
  | .member _ _ name => [name]
  | .whole _ _ => []
  | .branch _ _ index => [toString index]

def segments (s : Slot) : Pointer := s.keyword.text :: s.label

/-- The pointer that leads through some slots, of which the last one is named first. -/
def pointer (slots : List Slot) : Pointer := slots.reverse.flatMap segments

theorem pointer_cons (slot : Slot) (slots : List Slot) :
    pointer (slot :: slots) = pointer slots ++ slot.segments := by
  simp [pointer]

/-- Two slots whose segments begin alike are one. -/
theorem segments_append_inj {s t : Slot} {p q : Pointer}
    (h : s.segments ++ p = t.segments ++ q) : s = t ∧ p = q := by
  rw [segments, segments, List.cons_append, List.cons_append, List.cons.injEq] at h
  obtain ⟨same, rest⟩ := h
  have same := Keyword.text_injective same
  cases s with
  | member k fits name =>
    cases t with
    | member k' fits' name' =>
      obtain rfl : k = k' := same
      cases rest
      exact ⟨rfl, rfl⟩
    | whole k' fits' | branch k' fits' =>
      obtain rfl : k = k' := same
      cases fits.symm.trans fits'
  | whole k fits =>
    cases t with
    | whole k' fits' =>
      obtain rfl : k = k' := same
      exact ⟨rfl, rest⟩
    | member k' fits' | branch k' fits' =>
      obtain rfl : k = k' := same
      cases fits.symm.trans fits'
  | branch k fits i =>
    cases t with
    | branch k' fits' i' =>
      obtain rfl : k = k' := same
      obtain ⟨written, more⟩ := List.cons.inj rest
      cases Text.toString_injective written
      exact ⟨rfl, more⟩
    | member k' fits' | whole k' fits' =>
      obtain rfl : k = k' := same
      cases fits.symm.trans fits'

theorem flatMap_segments_injective : Function.Injective (List.flatMap segments) := by
  intro slots
  induction slots with
  | nil =>
    intro others h
    cases others with
    | nil => rfl
    | cons t others => cases h
  | cons s slots ih =>
    intro others h
    cases others with
    | nil => cases h
    | cons t others =>
      obtain ⟨rfl, rest⟩ := segments_append_inj h
      rw [ih rest]

theorem pointer_injective : Function.Injective pointer := fun _ _ same =>
  List.reverse_injective (flatMap_segments_injective same)

end Slot

theorem Json.follow?_of_get? {v w : Json} {key : String} (h : v.get? key = some w) :
    v.follow? key = some w := by
  cases v with
  | object members => exact h
  | _ => cases h

/-- A schema stands in a slot of another. -/
inductive Json.Has (schema : Json) : Slot → Json → Prop
  | member {keyword : Keyword} {fits : keyword.arrangement = .named} {name : String}
      {members : Assoc Json} {w : Json}
      (found : schema.follow? keyword.text = some (.object members))
      (listed : members.get? name = some w) : Has schema (.member keyword fits name) w
  | whole {keyword : Keyword} {fits : keyword.arrangement = .single} {w : Json}
      (found : schema.follow? keyword.text = some w) : Has schema (.whole keyword fits) w
  | branch {keyword : Keyword} {fits : keyword.arrangement = .listed} {schemas : List Json}
      {i : Nat} {w : Json} (found : schema.follow? keyword.text = some (.array schemas))
      (listed : schemas[i]? = some w) : Has schema (.branch keyword fits i) w

/-- A schema stands in a document at the end of some slots. -/
inductive Json.Reaches (root : Json) : List Slot → Json → Prop
  | root : Reaches root [] root
  | inner {slots : List Slot} {slot : Slot} {v w : Json} (h : Reaches root slots v)
      (has : v.Has slot w) : Reaches root (slot :: slots) w

/-- What stands at the end of some slots is found at their pointer. -/
theorem Json.Reaches.descend? {root v : Json} {slots : List Slot} (h : root.Reaches slots v) :
    root.descend? (Slot.pointer slots) = some v := by
  induction h with
  | root => rfl
  | inner h has ih =>
    rw [Slot.pointer_cons]
    cases has with
    | member found listed => exact Json.descend?_member ih found listed
    | whole found => exact Json.descend?_keyword ih found
    | branch found listed => exact Json.descend?_item ih found listed

end TypedArchive
