import TypedArchive.Emit.Body
import TypedArchive.Proofs.Binding.Fault
import TypedArchive.Proofs.Emit.Reads
import TypedArchive.Proofs.Emit.Size

/-! The emitted body for a union and the decoder select the same variant: testing JSON against tags
and shapes in order comes to what reading a tag first, and searching for it, comes to. -/

namespace TypedArchive

theorem Number.isInt64_or_isUInt64 (n : Number) : (n.isInt64 || n.isUInt64) = n.isInteger := by
  cases n with
  | integer i fits =>
    by_cases signed : i < 0x8000000000000000
    · simp [isInt64, toInt64?, signed, isInteger]
    · have positive : 0 ≤ i := by omega
      simp [isUInt64, positive, isInteger]
  | double x => rfl

namespace Emit

variable {runtime : CodePath} {scope : Scope} {v : Json} {path : FieldPath}

theorem eval_literalExpr (l : Literal) : (literalExpr l).eval scope = some (.json l.toJson) := by
  cases l <;> rfl

theorem eval_tagTest (found : scope.lookup "tag" = some (.json v)) (l : Literal) :
    (Expr.binary (.deref (name "tag")) "==" (literalExpr l)).eval scope =
      some (.flag (v.same l.toJson)) := by
  have tag : (Expr.deref (name "tag")).eval scope = some (.json v) := found
  rw [Expr.eval, tag, eval_literalExpr]
  rfl

/-- Each further key is asked for only while all before it were there. -/
theorem eval_keyTests {members : Assoc Json} (found : scope.lookup "map" = some (.map members))
    (required : List String) {test : Expr} {b : Bool} (start : test.eval scope = some (.flag b)) :
    (required.foldl (fun test key =>
      .binary test "&&" (.method (name "map") "contains_key" [.text key])) test).eval scope =
      some (.flag (b && required.all fun key => members.contains key)) := by
  induction required generalizing test b with
  | nil => simpa using start
  | cons key required ih =>
    have asked : (Expr.method (name "map") "contains_key" [.text key]).eval scope =
        some (.flag (members.contains key)) := by
      have map : (name "map").eval scope = some (.map members) := found
      rw [Expr.eval, map]
      rfl
    have next : (Expr.binary test "&&" (.method (name "map") "contains_key" [.text key])).eval
        scope = some (.flag (b && members.contains key)) := by
      rw [Expr.eval, start, asked]
      cases b <;> rfl
    rw [List.foldl_cons, ih next, List.all_cons, Bool.and_assoc]

theorem eval_shapeTest (s : Shape) :
    (shapeTest s).eval (bodyScope v path) = some (.flag (s.accepts v)) := by
  cases s with
  | object required =>
    cases required with
    | nil => cases v <;> rfl
    | cons key required =>
      cases v with
      | object members =>
        have start : (Expr.boolean true).eval
            (("map", .map members) :: bodyScope (.object members) path) = some (.flag true) := rfl
        exact eval_keyTests rfl (key :: required) start
      | _ => rfl
  | integer =>
    cases v with
    | number n =>
      rw [Shape.accepts, ← n.isInt64_or_isUInt64]
      change some (Operand.flag n.isInt64) >>= _ = _
      cases n.isInt64 <;> rfl
    | _ => rfl
  | _ => cases v <;> rfl

theorem errorOf_noMatchingVariant (entry : String) :
    errorOf runtime (bodyScope v path) (runtime.binding ["DecodeError", "NoMatchingVariant"])
      [("path", textOf "path"), ("type_name", fixedText entry)] =
      some (.noMatchingVariant path entry) := by
  have other : runtime.binding ["DecodeError", "NoMatchingVariant"] ≠
      runtime.binding ["DecodeError", "UnknownTag"] := by
    simp [CodePath.binding, CodePath.child]
  rw [errorOf, if_neg other, if_pos rfl]
  rfl

theorem errorOf_unknownTag (entry discriminant : String) (raw : Json) :
    errorOf runtime (("tag", .json raw) :: bodyScope v path)
      (runtime.binding ["DecodeError", "UnknownTag"])
      [("path", textOf "path"), ("type_name", fixedText entry),
        ("discriminant", fixedText discriminant), ("tag", textOf "tag")] =
      some (.unknownTag path entry discriminant raw.render) := by
  rw [errorOf, if_pos rfl]
  rfl

/-- Tests of shapes come to the first variant whose shape fits, and an error where there is none. -/
theorem runBody_shapeStatements (entry : String) (variants : List (String × Shape × EmittedType)) :
    runBody runtime (bodyScope v path) (shapeStatements runtime entry variants) =
      some (match variants.find? fun p => p.2.1.accepts v with
        | some (variant, _, payload) => .ok (variantRead runtime variant payload)
        | none => .error (.noMatchingVariant path entry)) := by
  induction variants with
  | nil => exact congrArg (Option.map Except.error) (errorOf_noMatchingVariant entry)
  | cons p rest ih =>
    obtain ⟨variant, shape, payload⟩ := p
    rw [shapeStatements, List.find?_cons]
    split
    · next any =>
      subst any
      rfl
    · rw [runBody, eval_shapeTest]
      cases accepts : shape.accepts v with
      | true => rfl
      | false => exact ih

/-- Tests of the tag come to the first variant with an equal tag; one without a tag is passed
over. -/
theorem runBody_tagTests (entry discriminant : String) (raw : Json)
    (variants : List (String × Option Literal × EmittedType)) :
    runBody runtime (("tag", .json raw) :: bodyScope v path)
      ((variants.filterMap fun (variant, tag, payload) => tag.map fun l =>
        .returnIf (.binary (.deref (name "tag")) "==" (literalExpr l))
          (variantRead runtime variant payload)) ++
      [.result (errExpr (.record (runtime.binding ["DecodeError", "UnknownTag"])
        [("path", textOf "path"), ("type_name", fixedText entry),
          ("discriminant", fixedText discriminant), ("tag", textOf "tag")]))]) =
      some (match variants.find? fun p => p.2.1.any fun l => raw.same l.toJson with
        | some (variant, _, payload) => .ok (variantRead runtime variant payload)
        | none => .error (.unknownTag path entry discriminant raw.render)) := by
  induction variants with
  | nil => exact congrArg (Option.map Except.error) (errorOf_unknownTag entry discriminant raw)
  | cons p rest ih =>
    obtain ⟨variant, tag, payload⟩ := p
    rw [List.find?_cons]
    cases tag with
    | none => exact ih
    | some l =>
      rw [List.filterMap_cons_some (by rfl), List.cons_append, runBody, eval_tagTest rfl]
      cases equal : raw.same l.toJson with
      | true => simp [equal]; rfl
      | false => simpa [equal] using ih

/-- The first of the paired values that passes a test stands beside the name at its index. Of the
names there may be some before those that are paired. -/
theorem find?_zip {α β : Type} {names all : List α} {xs : List β} {start : Nat}
    (length : names.length = xs.length) (places : ∀ i, all[start + i]? = names[i]?)
    (test : β → Bool) : (names.zip xs).find? (fun p => test p.2) =
      ((xs.zipIdx start).find? fun p => test p.1).bind fun p =>
        all[p.2]?.map fun n => (n, p.1) := by
  induction xs generalizing names start with
  | nil => simp
  | cons x xs ih =>
    obtain ⟨n, names, rfl⟩ := List.exists_cons_of_length_eq_add_one length
    rw [List.zip_cons_cons, List.zipIdx_cons, List.find?_cons, List.find?_cons]
    cases passes : test x with
    | true => simpa [passes, eq_comm] using places 0
    | false =>
      refine ih (by simpa using length) fun i => ?_
      rw [Nat.add_assoc, Nat.add_comm 1 i]
      exact places (i + 1)

/-- A tag is tested against JSON in one way, and read as a literal first in the other. -/
theorem any_same (raw : Json) (tag : Option Literal) :
    (tag.any fun l => raw.same l.toJson) = (Literal.ofJson? raw).any fun l => tag == some l := by
  simp only [Json.same_toJson]
  cases tag with
  | none => simp
  | some l =>
    cases literal : Literal.ofJson? raw with
    | none => simp [Literal.accepts, literal]
    | some l' => simp [Literal.accepts, literal, Bool.beq_eq_decide_eq, eq_comm]

/-- A body comes to what a selection comes to: the reading of the variant at the selected index, by
the name that stands at that index, or the error. -/
def Selects (runtime : CodePath) (names : List String) (body : Option (Except DecodeError Expr))
    (selected : Except DecodeError (Nat × Variant × Option Literal)) : Prop :=
  match selected with
  | .ok (index, variant, _) => ∃ name, names[index]? = some name ∧
      body = some (.ok (variantRead runtime name (.ofRef variant.type)))
  | .error err => body = some (.error err)

section Body

variable {variants : List Variant} {names : List String} (length : names.length = variants.length)

include length

/-- The test that the first fitting variant passes, for the variants with their names. -/
theorem find?_named {α : Type} (told : Variant → α) (test : α → Bool) :
    (names.zip ((variants.map told).zip (variants.map fun w => EmittedType.ofRef w.type))).find?
      (fun p => test p.2.1) =
      (variants.zipIdx.find? fun p => test (told p.1)).bind fun p =>
        names[p.2]?.map fun n => (n, told p.1, .ofRef p.1.type) := by
  have places (i : Nat) : names[0 + i]? = names[i]? := by rw [Nat.zero_add]
  have first := find?_zip length places fun w => test (told w)
  rw [List.zip_map', List.zip_map_right, List.find?_map]
  simp only [Function.comp_def, Prod.map_snd, first, Option.map_bind, Option.map_map,
    Prod.map_apply, id_eq]

theorem exists_name {test : Variant × Nat → Bool} {p : Variant × Nat}
    (found : variants.zipIdx.find? test = some p) : ∃ name, names[p.2]? = some name := by
  have listed := List.mem_zipIdx_iff_getElem?.mp (List.mem_of_find?_eq_some found)
  obtain ⟨lt, -⟩ := List.getElem?_eq_some_iff.mp listed
  exact ⟨names[p.2], List.getElem?_eq_getElem (length ▸ lt)⟩

theorem selects_shapes (entry : String) : Selects runtime names
    (runBody runtime (bodyScope v path) (unionBody runtime entry none variants names))
    (Decode.selectVariant entry none variants v path) := by
  have first := find?_named length (fun w => w.shape) fun s => s.accepts v
  rw [Decode.selectVariant_none, unionBody, runBody_shapeStatements, first]
  cases found : variants.zipIdx.find? fun p => p.1.shape.accepts v with
  | none => rfl
  | some p =>
    obtain ⟨name, named⟩ := exists_name length found
    refine ⟨name, named, ?_⟩
    rw [Option.bind_some, named]
    rfl

theorem selects_tags (entry discriminant : String) : Selects runtime names
    (runBody runtime (bodyScope v path)
      (unionBody runtime entry (some discriminant) variants names))
    (Decode.selectVariant entry (some discriminant) variants v path) := by
  have read : fallible runtime (bodyScope v path) (.call (.path (runtime.binding ["union_tag"]))
      [name "value", .text discriminant, name "path"]) =
      some ((Reader.unionTag v discriminant path).map .json) := by
    rw [fallible, if_pos rfl]
    rfl
  rw [unionBody, tagStatements, List.append_assoc, List.singleton_append, runBody, read]
  cases v with
  | object members =>
    rw [Decode.selectVariant, Reader.unionTag]
    cases members.lookup discriminant with
    | none => rfl
    | some raw =>
      dsimp only [Except.map]
      have first := find?_named length (fun w => w.tag) fun tag =>
        tag.any fun l => raw.same l.toJson
      rw [runBody_tagTests, first]
      simp only [any_same]
      cases Literal.ofJson? raw with
      | none =>
        have untold : variants.zipIdx.find? (fun _ => false) = none := by simp [List.find?_eq_none]
        simp only [Option.any_none, untold]
        rfl
      | some tag =>
        simp only [Option.any_some, variantForTag?]
        cases found : variants.zipIdx.find? fun p => p.1.tag == some tag with
        | none => rfl
        | some p =>
          obtain ⟨name, named⟩ := exists_name length found
          refine ⟨name, named, ?_⟩
          rw [Option.bind_some, named]
          rfl
  | _ => rfl

end Body

end Emit

open Emit

theorem Catalog.items_of_union (c : Catalog) {e : Entry} {discriminant : Option String}
    {variants : List Variant} (type : e.type = .union discriminant variants)
    (nonempty : variants ≠ []) (runtime : CodePath) :
    c.items runtime e = .ok (unionItems runtime e.name (documentation e.description)
      (((unionNames variants).map identifier).zip (variants.map fun w => .ofRef w.type))
      (unionBody runtime e.name discriminant variants ((unionNames variants).map identifier))) := by
  have some : variants.isEmpty = false := List.isEmpty_eq_false_iff.mpr nonempty
  simp only [items, type, some, Bool.false_eq_true, if_false]
  cases discriminant <;> rfl

/-- The items for a union read it by a body that selects, of any value, the variant that the decoder
selects, at the same index, and fails where the decoder does, with the same error. The variants may
have any names. -/
theorem Catalog.selects_of_union (c : Catalog) {e : Entry} {discriminant : Option String}
    {variants : List Variant} (type : e.type = .union discriminant variants)
    (nonempty : variants ≠ []) (runtime : CodePath) :
    (let names := (unionNames variants).map identifier;
      names.length = variants.length ∧
        c.items runtime e = .ok (unionItems runtime e.name (documentation e.description)
          (names.zip (variants.map fun w => .ofRef w.type))
          (unionBody runtime e.name discriminant variants names))) ∧
    ∀ (names : List String), names.length = variants.length → ∀ v path,
      Selects runtime names
        (runBody runtime (bodyScope v path) (unionBody runtime e.name discriminant variants names))
        (Decode.selectVariant e.name discriminant variants v path) := by
  refine ⟨⟨by rw [List.length_map, length_unionNames], c.items_of_union type nonempty runtime⟩,
    fun names length v path => ?_⟩
  cases discriminant with
  | none => exact selects_shapes length e.name
  | some key => exact selects_tags length e.name key

/-- A variant without a tag is passed over, and of two with one tag the first is selected; the
largest unsigned integer is no tag, and the error tells it. -/
theorem Catalog.selects_of_union_repeated :
    let variants : List Variant := [⟨none, .named "A", .any⟩, ⟨some (.integer 1), .named "B", .any⟩,
      ⟨some (.integer 1), .primitive .any, .any⟩]
    let e : Entry := ⟨"U", "u", none, .union (some "k") variants⟩
    let runtime := CodePath.of ["runtime"]
    let run (v : Json) := runBody runtime (bodyScope v [.index 2])
      (unionBody runtime e.name (some "k") variants ["X", "Y", "Z"])
    let large : Number := .integer 18446744073709551615 (by decide)
    variants ≠ [] ∧
      run (.object [("k", .ofInt64 1)]) = some (.ok (variantRead runtime "Y" (.named "B"))) ∧
      run (.object [("k", .number large)]) =
        some (.error (.unknownTag [.index 2] "U" "k" "18446744073709551615")) := by
  intro variants e runtime run large
  have nonempty : variants ≠ [] := List.cons_ne_nil _ _
  obtain ⟨-, selects⟩ := Catalog.selects_of_union ⟨[]⟩ (e := e) rfl nonempty runtime
  have first := selects ["X", "Y", "Z"] rfl (.object [("k", .ofInt64 1)]) [.index 2]
  have fails := selects ["X", "Y", "Z"] rfl (.object [("k", .number large)]) [.index 2]
  have second : Decode.selectVariant e.name (some "k") variants (.object [("k", .ofInt64 1)])
      [.index 2] = .ok (1, ⟨some (.integer 1), .named "B", .any⟩, some (.integer 1)) := by
    decide +kernel
  have unknown : Decode.selectVariant e.name (some "k") variants (.object [("k", .number large)])
      [.index 2] = .error (.unknownTag [.index 2] "U" "k" "18446744073709551615") := by
    decide +kernel
  rw [second] at first
  rw [unknown] at fails
  obtain ⟨name, ⟨⟩, selected⟩ := first
  exact ⟨nonempty, selected, fails⟩

end TypedArchive
