import TypedArchive.Binding.Reader
import TypedArchive.Proofs.Outcome

/-! One call of a record reader. What it comes to is settled by the members and the path alone; the
reader after it differs in where the path stands and in the keys asked for. -/

namespace TypedArchive

/-- A call of a record reader: a member that may be absent or not, perhaps with the value that it has
to be, and the type to read it as. -/
structure MemberCall where
  key : String
  optional : Bool
  expected : Option Json
  type : EmittedType

namespace MemberCall

def ofRead (f : FieldRead) : MemberCall :=
  { key := f.key, optional := f.optional, expected := f.expected.map Literal.toJson, type := f.type }

/-- Whether the member is there and is not the value that it has to be. -/
def refuses (c : MemberCall) (v : Option Json) : Bool :=
  v.any fun v => c.expected.any fun w => !v.same w

/-- What the call comes to among the members of a record, with the path at the end. -/
def ask (c : MemberCall) (members : Assoc (Json × EmittedReader)) (path : FieldPath) :
    ReadResult (Option EmittedValue) :=
  match members.get? c.key with
  | none => if c.optional then .ok none else .error (.missingField (path.pushKey c.key), path)
  | some (v, reader) =>
    match c.expected.filter fun w => !v.same w with
    | some w => .error (.typeMismatch (path.pushKey c.key) ("literal " ++ w.render) v.kind, path)
    | none =>
      match reader c.type (path.pushKey c.key) with
      | .ok x => .ok (some x)
      | .error (e, left) => .error (e, left.pop)

/-- A call that comes to a value has read the member, which was not refused. -/
theorem ask_eq_ok {c : MemberCall} {members : Assoc (Json × EmittedReader)} {path : FieldPath}
    {x : Option EmittedValue} (h : c.ask members path = .ok x) :
    (members.get? c.key = none → x = none ∧ c.optional = true) ∧
      (∀ v reader, members.get? c.key = some (v, reader) →
        ∃ y, x = some y ∧ reader c.type (path.pushKey c.key) = .ok y) ∧
      c.refuses ((members.get? c.key).map Prod.fst) = false := by
  rw [ask] at h
  cases found : members.get? c.key with
  | none =>
    rw [found] at h
    dsimp only at h
    split at h
    · next absent =>
      cases h
      refine ⟨fun _ => ⟨rfl, absent⟩, fun v reader same => ?_, rfl⟩
      cases same
    · cases h
  | some member =>
    obtain ⟨v, reader⟩ := member
    rw [found] at h
    dsimp only at h
    split at h
    · cases h
    · next agrees =>
      have taken : c.refuses (some v) = false := by
        cases given : c.expected with
        | none => simp [refuses, given]
        | some w =>
          rw [given] at agrees
          simpa [refuses, given, Option.filter_some] using agrees
      split at h
      · next y read =>
        cases h
        refine ⟨fun same => ?_, fun v' reader' same => ?_, taken⟩
        · cases same
        · cases same
          exact ⟨y, rfl, read⟩
      · cases h

end MemberCall

namespace RecordReader

/-- Answers a call by the way of reading that it asks for. -/
def call (r : RecordReader) (c : MemberCall) :
    Except DecodeError (Option EmittedValue) × RecordReader :=
  match c.optional, c.expected with
  | false, none => let (x, r) := r.required c.key c.type; (x.map some, r)
  | true, none => r.optional c.key c.type
  | false, some v => let (x, r) := r.requiredLiteral c.key v c.type; (x.map some, r)
  | true, some v => r.optionalLiteral c.key v c.type

theorem read_eq_call (r : RecordReader) (f : FieldRead) : r.read f = r.call (.ofRead f) := by
  obtain ⟨key, isOptional, expected, type⟩ := f
  cases isOptional <;> cases expected <;> rfl

/-- Where the path stands after a reading. -/
def left (path : FieldPath) {α : Type} : ReadResult α → FieldPath
  | .ok _ => path
  | .error e => e.2

/-- A call depends on the members and the path. It marks its key, unless the member is refused. -/
theorem call_eq (r : RecordReader) (c : MemberCall) :
    r.call c = ((c.ask r.members r.path).mapError Prod.fst,
      { r with
        path := left r.path (c.ask r.members r.path)
        declared := if c.refuses ((r.members.get? c.key).map Prod.fst) then r.declared
          else c.key :: r.declared }) := by
  obtain ⟨key, isOptional, expected, type⟩ := c
  cases found : r.members.get? key with
  | none =>
    have absent : r.members.contains key = false := congrArg Option.isSome found
    cases isOptional <;> cases expected <;>
      simp [call, required, optional, requiredLiteral, optionalLiteral, checkLiteral,
        MemberCall.ask, MemberCall.refuses, found, absent, Except.map, Except.mapError, left]
  | some p =>
    obtain ⟨v, reader⟩ := p
    have present : r.members.contains key = true := congrArg Option.isSome found
    cases expected with
    | none =>
      cases isOptional <;> cases given : reader type (r.path.pushKey key) <;>
        simp [call, required, optional, MemberCall.ask, MemberCall.refuses, found, present, given,
          Except.map, Except.mapError, left]
    | some w =>
      cases same : v.same w with
      | false =>
        cases isOptional <;>
          simp [call, requiredLiteral, optionalLiteral, checkLiteral, MemberCall.ask,
            MemberCall.refuses, found, same, Option.filter_some, Except.map, Except.mapError, left]
      | true =>
        cases isOptional <;> cases given : reader type (r.path.pushKey key) <;>
          simp [call, requiredLiteral, optionalLiteral, checkLiteral, required, optional,
            MemberCall.ask, MemberCall.refuses, found, present, same, given, Option.filter_some,
            Except.map, Except.mapError, left]

theorem call_members (r : RecordReader) (c : MemberCall) : (r.call c).2.members = r.members := by
  rw [call_eq]

end RecordReader

end TypedArchive
