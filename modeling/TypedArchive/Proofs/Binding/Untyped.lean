import TypedArchive.Proofs.Binding.Plain
import TypedArchive.Proofs.Compile.Soundness

/-! Untyped JSON where a primitive or a literal is written. It is taken exactly where decoding would
take it, with one exception: a number in the signed 64-bit range counts as an integer, and is not
taken as a number. -/

namespace TypedArchive

namespace Encode

theorem isOfKind_toJson (p : Primitive) (l : Literal) :
    isOfKind p l.toJson = (l.primitive == p) := by
  unfold isOfKind
  rw [Literal.ofJson?_toJson]

/-- The kind of untyped JSON is that of the primitive that reads it; of a number in the signed
64-bit range it is integer, and not number. -/
theorem isOfKind_iff {p : Primitive} {v : Json} : isOfKind p v = true ↔
    p ≠ .any ∧ p.holds v = true ∧ ¬(p = .number ∧ ∃ i, v = .ofInt64 i) := by
  cases literal : Literal.ofJson? v with
  | some l =>
    rw [Literal.ofJson?_eq_some.mp literal, isOfKind_toJson]
    cases l <;> cases p <;>
      simp [Literal.primitive, Literal.toJson, Primitive.holds, Json.ofInt64]
  | none =>
    have other (i) : v ≠ .ofInt64 i := by
      intro eq
      have own : Literal.ofJson? v = some (.integer i) := Literal.ofJson?_eq_some.mpr eq
      rw [own] at literal
      cases literal
    cases v with
    | number n =>
      have large : n.toInt64? = none := by simpa [Literal.ofJson?] using literal
      cases p <;> simp [isOfKind, Literal.ofJson?, Primitive.holds, large, other]
    | array items => cases p <;> simp [isOfKind, Literal.ofJson?, Primitive.holds]
    | object members => cases p <;> simp [isOfKind, Literal.ofJson?, Primitive.holds]
    | _ => cases literal

theorem primitive_unknown_eq_ok {p : Primitive} {v w : Json} {path : FieldPath} :
    primitive p (.unknown v) path = .ok w ↔
      p.holds v = true ∧ ¬(p = .number ∧ ∃ i, v = .ofInt64 i) ∧ v = w := by
  by_cases any : p = .any
  · subst any
    exact ⟨fun h => ⟨rfl, nofun, Except.ok.inj h⟩, fun h => congrArg Except.ok h.2.2⟩
  · rw [primitive_unknown any]
    by_cases kind : isOfKind p v = true
    · obtain ⟨-, holds, small⟩ := isOfKind_iff.mp kind
      rw [if_pos kind, Except.ok.injEq]
      exact ⟨fun eq => ⟨holds, small, eq⟩, fun h => h.2.2⟩
    · rw [if_neg kind]
      constructor
      · nofun
      · rintro ⟨holds, small, -⟩
        exact absurd (isOfKind_iff.mpr ⟨any, holds, small⟩) kind

/-- A literal is written for untyped JSON that is the literal. -/
theorem literal_unknown_eq_ok {l : Literal} {v w : Json} {path : FieldPath} :
    literal l (.unknown v) path = .ok w ↔ v = l.toJson ∧ v = w := by
  constructor
  · intro written
    obtain ⟨eq, rfl⟩ := literal_ok written
    exact ⟨eq, rfl⟩
  · rintro ⟨eq, rfl⟩
    have accepts : l.accepts v = true := beq_iff_eq.mpr (Literal.ofJson?_eq_some.mpr eq)
    have holds : l.primitive.holds v = true := eq ▸ l.primitive_holds
    have kind : l.primitive ≠ .number := by cases l <;> nofun
    have taken : primitive l.primitive (.unknown v) path = .ok v :=
      primitive_unknown_eq_ok.mpr ⟨holds, fun number => kind number.1, rfl⟩
    exact Outcome.bind_eq_ok.mpr ⟨v, taken, if_pos accepts⟩

end Encode

namespace Catalog

variable {c : Catalog} {t : TypeRef} {v : Json} {path : FieldPath}

/-- Untyped JSON is written as a primitive or literal that accepts it, unless it is a number in the
signed 64-bit range and the primitive is that of numbers. -/
theorem encode_unknown_eq_ok (plain : (∃ p, t = .primitive p) ∨ ∃ l, t = .literal l) {w : Json} :
    Encode.value c (.unknown v) t path = .ok w ↔
      c.Accepts t v ∧ ¬(t = .primitive .number ∧ ∃ i, v = .ofInt64 i) ∧ v = w := by
  rw [Encode.value_eq]
  rcases plain with ⟨p, rfl⟩ | ⟨l, rfl⟩
  · rw [accepts_primitive, Encode.typeRef, Encode.primitive_unknown_eq_ok, TypeRef.primitive.injEq]
  · rw [accepts_literal, Encode.typeRef, Encode.literal_unknown_eq_ok]
    have other : ¬(TypeRef.literal l = .primitive .number ∧ ∃ i, v = .ofInt64 i) := by
      rintro ⟨number, -⟩
      cases number
    exact and_congr_right fun _ => (and_iff_right other).symm

/-- Untyped JSON is written as a primitive or literal exactly if decoding would read it as that, and
is then written unchanged; but a number in the signed 64-bit range is not written as a number,
though it is decoded as one. -/
theorem encode_unknown (c : Catalog) {t : TypeRef}
    (plain : (∃ p, t = .primitive p) ∨ ∃ l, t = .literal l) (v : Json) (path place : FieldPath) :
    ((Encode.value c (.unknown v) t path).isOk = true ↔
      (Decode.value c v t place).isOk = true ∧
        ¬(t = .primitive .number ∧ ∃ i, v = .ofInt64 i)) ∧
    (∀ w, Encode.value c (.unknown v) t path = .ok w → w = v) ∧
    (∀ i, t = .primitive .number → v = .ofInt64 i →
      Encode.value c (.unknown v) t path = .error ⟨path, .kind "number" "unknown"⟩ ∧
        Decode.value c v t place = .ok (.number (.ofInt64 i))) := by
  refine ⟨?_, fun w written => ((encode_unknown_eq_ok plain).mp written).2.2.symm, ?_⟩
  · rw [isOk_value_iff]
    constructor
    · intro ok
      obtain ⟨w, written⟩ := Outcome.exists_of_isOk ok
      obtain ⟨accepts, small, -⟩ := (encode_unknown_eq_ok plain).mp written
      exact ⟨accepts, small⟩
    · rintro ⟨accepts, small⟩
      rw [(encode_unknown_eq_ok plain).mpr ⟨accepts, small, rfl⟩]
      rfl
  · rintro i rfl rfl
    have kind : Encode.isOfKind .number (.ofInt64 i) = false :=
      Encode.isOfKind_toJson .number (.integer i)
    constructor
    · have untyped : Primitive.number ≠ .any := by decide
      rw [Encode.value_eq, Encode.typeRef, Encode.primitive_unknown untyped, kind]
      rfl
    · rw [Decode.value_eq, Decode.typeRef]
      rfl

/-- A number above the signed 64-bit range is written as a number, and not as an integer. -/
theorem encode_unknown_large :
    let large : Json := .number (.integer 0x8000000000000000 ⟨by decide, by decide⟩)
    (∃ p, TypeRef.primitive .number = .primitive p) ∧
      Encode.value {} (.unknown large) (.primitive .number) [] = .ok large ∧
      (∃ p, TypeRef.primitive .integer = .primitive p) ∧
      (Encode.value {} (.unknown large) (.primitive .integer) []).isOk = false := by
  intro large
  obtain ⟨number, unchanged, -⟩ := encode_unknown {} (.inl ⟨.number, rfl⟩) large [] []
  obtain ⟨integer, -⟩ := encode_unknown {} (.inl ⟨.integer, rfl⟩) large [] []
  have literal : Literal.ofJson? large = none := by decide
  have other : ¬∃ i, large = .ofInt64 i := by
    rintro ⟨i, eq⟩
    have own : Literal.ofJson? large = some (.integer i) := Literal.ofJson?_eq_some.mpr eq
    rw [literal] at own
    cases own
  obtain ⟨w, written⟩ := Outcome.exists_of_isOk (number.mpr ⟨rfl, fun h => other h.2⟩)
  refine ⟨⟨_, rfl⟩, ?_, ⟨_, rfl⟩, Bool.eq_false_iff.mpr fun taken => ?_⟩
  · rw [written, unchanged w written]
  · cases (integer.mp taken).1

end Catalog

set_option maxRecDepth 100000 in
/-- A type that stands for numbers decodes 5, but does not take it as untyped JSON. -/
theorem Graph.encode_unknown_refused :
    let schema : Json := .object [("definitions", .object
      [("n", .object [("type", .string "number")])])]
    let five : Json := .ofInt64 5
    ∃ g c e, Graph.load ⟨[("a.json", schema.render)]⟩ = .ok g ∧ g.compile = .ok c ∧
      c.get? "N" = some e ∧ e.type = .alias (.primitive .number) ∧
      c.decode "N" five = .ok (.number (.ofInt64 5)) ∧
      c.encode "N" (.unknown five) = .error ⟨[], .kind "number" "unknown"⟩ ∧
      ¬((Encode.value c (.unknown five) (.primitive .number) []).isOk = true ↔
        (Decode.value c five (.primitive .number) []).isOk = true) := by
  intro schema five
  have runs : Bundle.compilesTo ⟨[("a.json", schema.render)]⟩ (fun _ c => decide
      ((c.get? "N").map Entry.type = some (.alias (.primitive .number)) ∧
        (c.decode "N" five).toOption = some (.number (.ofInt64 5)) ∧
        c.encode "N" (.unknown five) = .error ⟨[], .kind "number" "unknown"⟩)) = true := by
    rw [Bundle.compilesTo_eq]
    decide +kernel
  obtain ⟨g, c, load, compile, h⟩ := Bundle.exists_of_compilesTo runs
  obtain ⟨type, decoded, refused⟩ := of_decide_eq_true h
  obtain ⟨e, entry, type⟩ := Option.map_eq_some_iff.mp type
  refine ⟨g, c, e, load, compile, entry, type, Outcome.toOption_eq_some.mp decoded, refused, ?_⟩
  intro agree
  cases agree.mpr rfl

end TypedArchive
