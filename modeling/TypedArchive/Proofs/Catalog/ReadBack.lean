import TypedArchive.Catalog.Json
import TypedArchive.Proofs.Assoc
import TypedArchive.Proofs.Outcome

/-! What a catalog is read as from the JSON that it is written to: itself, up to union tags that are
the null literal, which read as no tag. -/

namespace TypedArchive

namespace Json

@[simp] theorem get?_object_nil (key : String) : (object []).get? key = none := rfl

@[simp] theorem get?_object_cons (k key : String) (v : Json) (rest : List (String × Json)) :
    (object ((k, v) :: rest)).get? key = if key = k then some v else (object rest).get? key :=
  Assoc.get?_cons k v rest key

/-- An optional member hides a later one of its key only if it is there. -/
@[simp] theorem get?_member?_append (k key : String) (v : Option Json)
    (rest : List (String × Json)) : (object (member? k v ++ rest)).get? key =
      if key = k then v <|> (object rest).get? key else (object rest).get? key := by
  cases v with
  | none => simp [member?]
  | some v => simp [member?]

@[simp] theorem get?_member? (k key : String) (v : Option Json) :
    (object (member? k v)).get? key = if key = k then v else none := by
  simpa using get?_member?_append k key v []

variable {α : Type} {read : Json → Option α} {write : α → Json}

theorem readItems?_map (items : List α) (keep : α → α)
    (each : ∀ x ∈ items, read (write x) = some (keep x)) :
    readItems? read (.array (items.map write)) = some (items.map keep) := by
  unfold readItems?
  rw [Outcome.mapM_eq_some, List.forall₂_map_left_iff, List.forall₂_map_right_iff,
    List.forall₂_same]
  exact each

theorem readItems?_map_self (each : ∀ x, read (write x) = some x) (items : List α) :
    readItems? read (.array (items.map write)) = some items := by
  have h := readItems?_map items id fun x _ => each x
  rwa [List.map_id] at h

theorem readOption?_some {v : Json} (notNull : v ≠ .null) :
    readOption? read (some v) = (read v).map some := by
  cases v with
  | null => contradiction
  | _ => rfl

theorem readOption?_map (each : ∀ x, read (write x) = some x) (notNull : ∀ x, write x ≠ .null)
    (value : Option α) : readOption? read (value.map write) = some value := by
  cases value with
  | none => rfl
  | some x => rw [Option.map_some, readOption?_some (notNull x), each x, Option.map_some]

theorem readOption?_string (value : Option String) :
    readOption? asString? (value.map .string) = some value := by
  apply readOption?_map
  · intro text
    rfl
  · intro text
    exact Json.noConfusion

theorem readItems?_string (items : List String) :
    readItems? asString? (.array (items.map .string)) = some items := by
  apply readItems?_map_self
  intro text
  rfl

theorem depth_pos (v : Json) : 0 < v.depth := by
  cases v <;> simp [depth]

end Json

theorem Primitive.ofWord?_word (p : Primitive) : ofWord? p.word = some p := by
  cases p <;> rfl

namespace TypeRef

/-- Any depth from that of the written expression on is enough to read it. -/
theorem ofJsonWithin?_toJson (t : TypeRef) {depth : Nat} (deep : t.toJson.depth ≤ depth) :
    ofJsonWithin? depth t.toJson = some t := by
  induction t generalizing depth with
  | named name | primitive p | literal l =>
    have pos := Nat.lt_of_lt_of_le (Json.depth_pos _) deep
    obtain ⟨below, rfl⟩ := Nat.exists_eq_add_one.mpr pos
    simp [ofJsonWithin?, toJson, Json.asString?, Primitive.ofWord?_word]
  | array t ih | map t ih =>
    have pos := Nat.lt_of_lt_of_le (Json.depth_pos _) deep
    obtain ⟨below, rfl⟩ := Nat.exists_eq_add_one.mpr pos
    have inner : t.toJson.depth ≤ below := by
      simp only [toJson, Json.depth, Json.membersDepth] at deep
      omega
    simp [ofJsonWithin?, toJson, Json.asString?, ih inner]

@[simp] theorem ofJson?_toJson (t : TypeRef) : ofJson? t.toJson = some t :=
  ofJsonWithin?_toJson t (Nat.le_refl _)

end TypeRef

namespace Shape

/-- The required keys stand in increasing order, as in every set of keys. -/
def Ascending : Shape → Prop
  | .object required => required.Pairwise (· < ·)
  | _ => True

instance : (s : Shape) → Decidable s.Ascending
  | .object required => inferInstanceAs (Decidable (required.Pairwise (· < ·)))
  | .array | .string | .integer | .number | .boolean | .null | .any => isTrue trivial

theorem ofJson?_toJson {s : Shape} (ascending : s.Ascending) : ofJson? s.toJson = some s := by
  cases s with
  | object required =>
    have keys := Assoc.sortedNames_of_ascending ascending
    unfold Assoc.sortedNames at keys
    simp [ofJson?, toJson, Json.asString?, Json.readItems?_string, keys]
  | _ => rfl

end Shape

theorem Field.ofJson?_toJson (f : Field) : ofJson? f.toJson = some f := by
  simp [ofJson?, toJson, Json.asString?, Json.asBool?, Json.readOption?_string]

namespace Variant

/-- The variant with no tag in the place of the null literal. -/
def withoutNullTag (u : Variant) : Variant := { u with tag := u.tag.filter (· != .null) }

theorem withoutNullTag_eq_self {u : Variant} : u.withoutNullTag = u ↔ u.tag ≠ some .null := by
  obtain ⟨tag, type, shape⟩ := u
  cases tag with
  | none => simp [withoutNullTag]
  | some l =>
    cases l with
    | null => simp [withoutNullTag]
    | _ => simp [withoutNullTag]

theorem readOption?_tag (tag : Option Literal) :
    Json.readOption? Literal.ofJson? (tag.map Literal.toJson) =
      some (tag.filter (· != .null)) := by
  cases tag with
  | none => rfl
  | some l =>
    by_cases null : l = .null
    · subst null
      rfl
    · have notNull : l.toJson ≠ .null := by
        cases l with
        | null => contradiction
        | _ => exact Json.noConfusion
      have kept : (some l).filter (· != .null) = some l :=
        Option.filter_some_pos (by simpa using null)
      rw [Option.map_some, Json.readOption?_some notNull, Literal.ofJson?_toJson, kept,
        Option.map_some]

theorem ofJson?_toJson {u : Variant} (ascending : u.shape.Ascending) :
    ofJson? u.toJson = some u.withoutNullTag := by
  simp [ofJson?, toJson, readOption?_tag, Shape.ofJson?_toJson ascending, withoutNullTag]

end Variant

namespace TypeDef

def variants : TypeDef → List Variant
  | .union _ variants => variants
  | _ => []

def withoutNullTags : TypeDef → TypeDef
  | .union discriminant variants => .union discriminant (variants.map Variant.withoutNullTag)
  | type => type

theorem withoutNullTags_eq_self {type : TypeDef} :
    type.withoutNullTags = type ↔ ∀ u ∈ type.variants, u.tag ≠ some .null := by
  cases type with
  | «union» discriminant variants =>
    simp only [withoutNullTags, TypeDef.variants, union.injEq, true_and,
      ← Variant.withoutNullTag_eq_self]
    constructor
    · intro same
      exact List.map_inj_left.mp (same.trans (List.map_id _).symm)
    · intro each
      rw [List.map_congr_left each]
      exact List.map_id' _
  | _ => simp [withoutNullTags, TypeDef.variants]

theorem ofJson?_toJson {type : TypeDef} (ascending : ∀ u ∈ type.variants, u.shape.Ascending) :
    ofJson? type.toJson = some type.withoutNullTags := by
  cases type with
  | record fields =>
    have items := Json.readItems?_map_self Field.ofJson?_toJson fields
    simp [ofJson?, toJson, Json.asString?, items, withoutNullTags]
  | enumeration values descriptions =>
    have literals := Json.readItems?_map_self Literal.ofJson?_toJson values
    have texts := Json.readItems?_string descriptions
    cases descriptions with
    | nil => simp [ofJson?, toJson, Json.asString?, literals, withoutNullTags]
    | cons text rest =>
      rw [List.map_cons] at texts
      simp [ofJson?, toJson, Json.asString?, literals, texts, withoutNullTags]
  | «union» discriminant variants =>
    have items := Json.readItems?_map variants Variant.withoutNullTag
      fun u mem => Variant.ofJson?_toJson (ascending u mem)
    simp [ofJson?, toJson, Json.asString?, Json.readOption?_string, items, withoutNullTags]
  | array t | «alias» t => simp [ofJson?, toJson, Json.asString?, withoutNullTags]

end TypeDef

namespace Entry

def withoutNullTags (e : Entry) : Entry := { e with type := e.type.withoutNullTags }

theorem ofJson?_toJson {e : Entry} (ascending : ∀ u ∈ e.type.variants, u.shape.Ascending) :
    ofJson? e.toJson = some e.withoutNullTags := by
  simp [ofJson?, toJson, Json.asString?, Json.readOption?_string,
    TypeDef.ofJson?_toJson ascending, withoutNullTags]

theorem withoutNullTags_eq_self {e : Entry} :
    e.withoutNullTags = e ↔ ∀ u ∈ e.type.variants, u.tag ≠ some .null := by
  rw [← TypeDef.withoutNullTags_eq_self]
  obtain ⟨name, origin, description, type⟩ := e
  simp [withoutNullTags]

end Entry

namespace Catalog

def withoutNullTags (c : Catalog) : Catalog := ⟨c.entries.mapValues Entry.withoutNullTags⟩

/-- The variants of all unions. -/
def variants (c : Catalog) : List Variant := c.entries.flatMap fun p => p.2.type.variants

theorem withoutNullTags_eq_self {c : Catalog} :
    c.withoutNullTags = c ↔ ∀ u ∈ c.variants, u.tag ≠ some .null := by
  obtain ⟨entries⟩ := c
  simp only [withoutNullTags, variants, Catalog.mk.injEq, Assoc.mapValues, List.forall_mem_flatMap,
    ← Entry.withoutNullTags_eq_self]
  constructor
  · intro same p mem
    have eq := List.map_inj_left.mp (same.trans (List.map_id _).symm) p mem
    exact congrArg Prod.snd eq
  · intro each
    have eq (p) (mem : p ∈ entries) : (p.1, p.2.withoutNullTags) = p :=
      Prod.ext rfl (each p mem)
    rw [List.map_congr_left eq]
    exact List.map_id' _

/-- Every catalog is read from the JSON that it is written to. It is the same catalog exactly when no
variant has the null literal as its tag; all that is lost are such tags. -/
theorem ofJson?_toJson_iff (c : Catalog) (ascending : ∀ u ∈ c.variants, u.shape.Ascending) :
    ofJson? c.toJson = some c.withoutNullTags ∧
      (ofJson? c.toJson = some c ↔ ∀ u ∈ c.variants, u.tag ≠ some .null) := by
  have read : ofJson? c.toJson = some c.withoutNullTags := by
    have each (p) (mem : p ∈ c.entries) : Entry.ofJson? p.2.toJson = some p.2.withoutNullTags := by
      apply Entry.ofJson?_toJson
      intro u inner
      exact ascending u (List.mem_flatMap.mpr ⟨p, mem, inner⟩)
    have all : (c.entries.map fun p => (p.1, p.2.toJson)).mapM (fun p => do
        return (p.1, ← Entry.ofJson? p.2)) = some c.withoutNullTags.entries := by
      rw [Outcome.mapM_eq_some]
      unfold withoutNullTags Assoc.mapValues
      rw [List.forall₂_map_left_iff, List.forall₂_map_right_iff, List.forall₂_same]
      intro p mem
      simp [each p mem]
    unfold ofJson? toJson
    dsimp only
    rw [all]
    rfl
  constructor
  · exact read
  · rw [read, Option.some.injEq]
    exact withoutNullTags_eq_self

/-- Types of every form come back; so does a union with a null tag, but without the tag. -/
theorem ofJson?_toJson_forms :
    let fields : List Field := [⟨"a", .map (.array (.named "E")), true, some "text"⟩,
      ⟨"k", .literal .null, false, none⟩, ⟨"n", .primitive .number, false, none⟩]
    let values : List Literal := [.null, .boolean true, .integer (-3), .string "x"]
    let union (tag : Option Literal) : TypeDef :=
      .union (some "k") [⟨tag, .named "R", .object ["k", "n"]⟩, ⟨none, .named "E", .any⟩]
    let entry (name : String) (type : TypeDef) : String × Entry := (name, ⟨name, "", none, type⟩)
    let c (tag : Option Literal) : Catalog := ⟨[entry "A" (.array .any),
      entry "E" (.enumeration values ["none", "yes", "three", "other"]),
      entry "L" (.alias (.named "A")), entry "R" (.record fields), entry "U" (union tag)]⟩
    (∀ tag, ∀ u ∈ (c tag).variants, u.shape.Ascending) ∧
      ofJson? (c (some (.integer 7))).toJson = some (c (some (.integer 7))) ∧
      ofJson? (c (some .null)).toJson = some (c none) := by
  intro fields values union entry c
  have ascending (tag) : ∀ u ∈ (c tag).variants, u.shape.Ascending := by
    have shapes : (c tag).variants.map Variant.shape = [.object ["k", "n"], .any] := rfl
    have all : ∀ s ∈ [Shape.object ["k", "n"], .any], s.Ascending := by decide
    intro u mem
    exact all u.shape (shapes ▸ List.mem_map_of_mem mem)
  refine ⟨ascending, ?_, ?_⟩
  · apply (ofJson?_toJson_iff (c (some (.integer 7))) (ascending _)).2.mpr
    decide
  · exact (ofJson?_toJson_iff (c (some .null)) (ascending _)).1

end Catalog

end TypedArchive
