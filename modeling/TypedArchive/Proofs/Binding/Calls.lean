import TypedArchive.Proofs.Binding.Moves

/-! The calls of a record reader, one after the other. A call reads from where the path stands and
takes the value of a member for what it is, so calls differ from those of a new reader in one way
only: a call that fails inside a list or a map leaves the path there, and all later errors tell
their place below it. -/

namespace TypedArchive

/-- A type in which no emitted type is called by its name. -/
def EmittedType.plain : EmittedType → Bool
  | .named _ => false
  | .boxed t | .list t | .map t => t.plain
  | _ => true

namespace Reader

variable {α β : Type}

/-- A reading that fails leaves the path at the place that its error tells. -/
def Tells (read : FieldPath → ReadResult α) : Prop :=
  ∀ ⦃path e⦄, read path = .error e → e.2 = e.1.path

namespace Tells

theorem ok (a : α) : Tells fun _ => (.ok a : ReadResult α) := by
  intro path e h
  cases h

theorem mismatch (expected : String) (v : Json) :
    Tells (Reader.mismatch expected v : FieldPath → ReadResult α) := by
  intro path e h
  cases h
  rfl

theorem map {x : FieldPath → ReadResult α} (f : α → β) (hx : Tells x) :
    Tells fun path => f <$> x path := by
  intro path e h
  have fails : f <$> x path = .error e := h
  cases given : x path with
  | ok a =>
    rw [given] at fails
    cases fails
  | error e' =>
    rw [given] at fails
    cases fails
    exact hx given

theorem push {x : FieldPath → ReadResult α} (s : Segment) (hx : Tells x) :
    Tells fun path => x (path ++ [s]) := by
  intro path e h
  exact hx h

theorem mapM {f : FieldPath → α → ReadResult β} {xs : List α}
    (each : ∀ x ∈ xs, Tells fun path => f path x) : Tells fun path => xs.mapM (f path) := by
  intro path e h
  have fails : xs.mapM (f path) = .error e := h
  obtain ⟨x, mem, fails⟩ := Outcome.exists_of_mapM_eq_error fails
  exact each x mem fails

end Tells

theorem Settles.tells {v : Json} {x : FieldPath → ReadResult α} (h : Settles v x) : Tells x := by
  cases h with
  | ok a => exact .ok a
  | mismatch expected => exact .mismatch expected v

theorem value_tells (plans : Assoc DecodePlan) {t : EmittedType} (plain : t.plain = true)
    (v : Json) : Tells (value plans v t) := by
  induction t generalizing v with
  | named name => cases plain
  | boxed t ih =>
    have read := ih plain v
    rw [value_eq] at read ⊢
    exact read
  | list t ih =>
    rw [value_eq]
    cases v with
    | array items =>
      refine (Tells.mapM fun p mem => ?_).map EmittedValue.list
      obtain ⟨reader, i⟩ := p
      have item := List.mem_of_getElem? (List.mem_zipIdx_iff_getElem?.mp mem)
      rw [parts, itemReaders_eq] at item
      obtain ⟨w, -, rfl⟩ := List.mem_map.mp item
      exact (ih plain w).push (.index i)
    | _ => exact .mismatch "array" _
  | map t ih =>
    rw [value_eq]
    cases v with
    | object members =>
      refine (Tells.mapM fun p mem => ?_).map EmittedValue.map
      rw [parts, memberReaders_eq] at mem
      obtain ⟨q, listed, rfl⟩ := List.mem_map.mp mem
      obtain ⟨w, -, rfl⟩ := List.mem_map.mp listed
      exact ((ih plain w.2).push (.key w.1)).map fun x => (w.1, x)
    | _ => exact .mismatch "object" _
  | string => exact value_eq plans v ▸ ((string_settles v).map EmittedValue.string).tells
  | integer => exact value_eq plans v ▸ ((integer_settles v).map EmittedValue.integer).tells
  | number => exact value_eq plans v ▸ ((number_settles v).map EmittedValue.number).tells
  | boolean => exact value_eq plans v ▸ ((boolean_settles v).map EmittedValue.boolean).tells
  | unit => exact value_eq plans v ▸ ((unit_settles v).map fun _ => EmittedValue.unit).tells
  | json => exact value_eq plans v ▸ Tells.ok (EmittedValue.json v)

end Reader

namespace RecordReader

theorem ask_tells {members : Assoc (Json × EmittedReader)} {c : MemberCall}
    (reads : ∀ v reader, members.get? c.key = some (v, reader) → Reader.Tells (reader c.type))
    {path : FieldPath} {e : DecodeError × FieldPath} (h : c.ask members path = .error e) :
    e.2 = e.1.path.pop := by
  rw [MemberCall.ask] at h
  split at h
  · split at h <;> cases h
    exact (FieldPath.pop_push path (.key c.key)).symm
  · next v reader found =>
    split at h
    · cases h
      exact (FieldPath.pop_push path (.key c.key)).symm
    · split at h <;> cases h
      next fails => exact congrArg FieldPath.pop (reads v reader found fails)

/-- The reader after some calls, whatever they came to. -/
def after (r : RecordReader) (calls : List MemberCall) : RecordReader :=
  calls.foldl (fun r c => (r.call c).2) r

section After

variable {r : RecordReader} (moves : ∀ p ∈ r.members, ∀ t, Reader.Moves (p.2.2 t))

include moves

/-- A call comes to what it comes to at the top, with the place in its error below the path. -/
theorem result_call {r' : RecordReader} (same : r'.members = r.members) (top : r.path = [])
    (c : MemberCall) : (r'.call c).1 = (r.call c).1.mapError (.under r'.path) := by
  have moved := ask_moves moves c r'.path []
  rw [List.append_nil] at moved
  rw [call_eq, call_eq, same, top, moved]
  cases c.ask r.members [] <;> rfl

/-- What a call leaves on the path is what it leaves at the top. -/
theorem path_call (c : MemberCall) :
    (r.call c).2.path = r.path ++ left [] (c.ask r.members []) := by
  have moved := ask_moves moves c r.path []
  have below := left_under r.path [] (c.ask r.members [])
  rw [List.append_nil] at moved below
  rw [call_eq, ← below, ← moved]

theorem path_after (calls : List MemberCall) :
    (r.after calls).path = r.path ++ calls.flatMap fun c => left [] (c.ask r.members []) := by
  induction calls generalizing r with
  | nil => exact (List.append_nil _).symm
  | cons c calls ih =>
    have members := r.call_members c
    have rest : (r.after (c :: calls)).path = _ := ih (r := (r.call c).2) (members ▸ moves)
    rw [rest, members, path_call moves, List.flatMap_cons, List.append_assoc]

end After

theorem members_after (r : RecordReader) (calls : List MemberCall) :
    (r.after calls).members = r.members := by
  induction calls generalizing r with
  | nil => rfl
  | cons c calls ih => exact (ih (r.call c).2).trans (r.call_members c)

/-- The keys of calls are marked, but for those of members that are refused. -/
theorem mem_declared_after (r : RecordReader) (calls : List MemberCall) (key : String) :
    key ∈ (r.after calls).declared ↔ key ∈ r.declared ∨
      ∃ c ∈ calls, c.key = key ∧ c.refuses ((r.members.get? key).map Prod.fst) = false := by
  induction calls generalizing r with
  | nil => simp [after]
  | cons c calls ih =>
    have rest := ih (r.call c).2
    rw [call_members] at rest
    have first : key ∈ (r.call c).2.declared ↔ key ∈ r.declared ∨
        c.key = key ∧ c.refuses ((r.members.get? key).map Prod.fst) = false := by
      rw [call_eq]
      dsimp only
      split
      · next refused =>
        refine (or_iff_left ?_).symm
        rintro ⟨rfl, taken⟩
        rw [taken] at refused
        cases refused
      · next taken =>
        rw [List.mem_cons, or_comm, eq_comm]
        refine or_congr_right ⟨?_, And.left⟩
        rintro rfl
        exact ⟨rfl, Bool.eq_false_iff.mpr taken⟩
    simp only [List.mem_cons, exists_eq_or_imp]
    rw [← or_assoc, ← first]
    exact rest

/-- Starts to read the members of an object. -/
def start (plans : Assoc DecodePlan) (members : Assoc Json) (path : FieldPath) : RecordReader :=
  { members := Reader.memberReaders plans members, path }

variable {plans : Assoc DecodePlan} {members : Assoc Json}

theorem start_moves (path : FieldPath) :
    ∀ p ∈ (start plans members path).members, ∀ t, Reader.Moves (p.2.2 t) := by
  intro p mem t
  rw [start, Reader.memberReaders_eq] at mem
  obtain ⟨q, -, rfl⟩ := List.mem_map.mp mem
  exact Reader.value_moves plans q.2 t

/-- The values of the members are those of the object. -/
theorem get?_start (path : FieldPath) (key : String) :
    ((start plans members path).members.get? key).map Prod.fst = members.get? key := by
  rw [start, Reader.memberReaders_eq, Assoc.get?_mapValues, Option.map_map]
  exact congrFun Option.map_id _

/-- The values of the members read as values of the object do. -/
theorem reader_start {path : FieldPath} {key : String} {v : Json} {reader : EmittedReader}
    (found : (start plans members path).members.get? key = some (v, reader)) :
    reader = Reader.value plans v := by
  rw [start, Reader.memberReaders_eq, Assoc.get?_mapValues] at found
  obtain ⟨w, -, eq⟩ := Option.map_eq_some_iff.mp found
  cases eq
  rfl

/-- A call for a plain type leaves on the path what its error tells, less the last segment. -/
theorem left_ask (c : MemberCall) (plain : c.type.plain = true) :
    left [] (c.ask (start plans members []).members []) =
      ((Decode.fault ((start plans members []).call c).1).getD []).pop := by
  have result : ((start plans members []).call c).1 =
      (c.ask (start plans members []).members []).mapError Prod.fst := by
    rw [call_eq]
    rfl
  rw [result]
  cases asked : c.ask (start plans members []).members [] with
  | ok x => rfl
  | error e => exact ask_tells (fun v reader found =>
      reader_start found ▸ Reader.value_tells plans plain v) asked

theorem finish_after (path : FieldPath) (calls : List MemberCall) :
    ((start plans members path).after calls).finish = members.filter fun p =>
      calls.all fun c => c.key != p.1 || c.refuses (members.get? p.1) := by
  have given : (start plans members path).members =
      members.map fun p => (p.1, p.2, Reader.value plans p.2) := Reader.memberReaders_eq plans members
  rw [finish, members_after, given, List.filter_map, List.map_map]
  refine (List.map_id' _).trans (List.filter_congr fun p _ => ?_)
  rw [Function.comp_apply, Bool.eq_iff_iff, Bool.not_eq_true', ← Bool.not_eq_true,
    List.contains_iff_mem, mem_declared_after, get?_start, List.all_eq_true]
  simp only [start, List.not_mem_nil, false_or, not_exists, not_and, Bool.or_eq_true, bne_iff_ne,
    Bool.not_eq_false]
  exact forall₂_congr fun b _ => imp_iff_not_or

/-- Whatever calls a reader has answered, the next is answered as a new reader at the top answers
it, but for where errors tell their place: below the start and what the calls left on the path. So
it is answered as by a new reader at the start exactly if it succeeds or nothing was left. A call
for a plain type that fails leaves there the place inside its member that its error tells. At the
end those members are left that no call named, and those that were refused each time. -/
theorem call_after (plans : Assoc DecodePlan) (members : Assoc Json) (path : FieldPath)
    (before : List MemberCall) (c : MemberCall) :
    let fresh := start plans members
    let drift := before.flatMap fun b => ((fresh []).call b).2.path
    let r := (fresh path).after before
    Reader.ofObject plans (.object members) path = .ok (fresh path) ∧ r.path = path ++ drift ∧
      (r.call c).1 = ((fresh []).call c).1.mapError (.under (path ++ drift)) ∧
      ((r.call c).1 = ((fresh path).call c).1 ↔
        ((fresh path).call c).1.isOk = true ∨ drift = []) ∧
      ((∀ b ∈ before, b.type.plain = true) →
        drift = before.flatMap fun b => ((Decode.fault ((fresh []).call b).1).getD []).pop) ∧
      r.finish = members.filter fun p =>
        before.all fun b => b.key != p.1 || b.refuses (members.get? p.1) := by
  intro fresh drift r
  have left_first (b : MemberCall) :
      ((fresh []).call b).2.path = left [] (b.ask (fresh []).members []) :=
    path_call (start_moves []) b
  have stands : r.path = path ++ drift := by
    rw [path_after (start_moves path)]
    exact congrArg (path ++ ·) (congrArg before.flatMap (funext fun b => (left_first b).symm))
  have answer (r' : RecordReader) (same : r'.members = (fresh []).members) :
      (r'.call c).1 = ((fresh []).call c).1.mapError (.under r'.path) :=
    result_call (start_moves []) same rfl c
  have drifted := answer r (members_after _ before)
  rw [stands] at drifted
  refine ⟨rfl, stands, drifted, ?_, fun plain => ?_, finish_after path before⟩
  · have direct : ((fresh path).call c).1 = ((fresh []).call c).1.mapError (.under path) :=
      answer (fresh path) rfl
    rw [drifted, direct]
    cases ((fresh []).call c).1 with
    | ok x => exact iff_of_true rfl (.inl rfl)
    | error e =>
      refine Iff.trans ⟨fun same => ?_, fun none => ?_⟩ (or_iff_right Bool.false_ne_true).symm
      · have places := DecodeError.under_inj (Except.error.inj same)
        exact List.append_right_eq_self.mp places
      · rw [none, List.append_nil]
  · refine List.flatMap_congr fun b mem => ?_
    rw [left_first, left_ask b (plain b mem)]

/-- A call that fails at the first item of a list, and then one at another member. -/
theorem call_after_list :
    let members : Assoc Json := [("a", .array [.bool true]), ("b", .bool true), ("c", .null)]
    let before : List MemberCall := [⟨"a", true, none, .list .integer⟩]
    let path : FieldPath := [.index 7]
    let r := (start [] members path).after before
    (∀ b ∈ before, b.type.plain = true) ∧ r.path = [.index 7, .key "a"] ∧
      (r.call ⟨"b", false, none, .integer⟩).1 =
        .error (.typeMismatch [.index 7, .key "a", .key "b"] "integer" "boolean") ∧
      r.finish = [("b", .bool true), ("c", .null)] := by
  intro members before path r
  have plain : ∀ b ∈ before, b.type.plain = true := by decide
  obtain ⟨-, stands, answer, -, drift, rest⟩ :=
    call_after [] members path before ⟨"b", false, none, .integer⟩
  rw [drift plain] at stands answer
  exact ⟨plain, stands, answer, rest⟩

/-- The same member is read alike, but its error tells a place inside the member before it; and a
member that was asked for is among the rest, since it is not the value that it had to be. -/
theorem call_after_differs :
    let members : Assoc Json := [("a", .array [.bool true]), ("b", .bool true)]
    let fresh := start [] members []
    let list : MemberCall := ⟨"a", false, none, .list .integer⟩
    let whole : MemberCall := ⟨"b", false, none, .integer⟩
    let fixed : MemberCall := ⟨"b", false, some (.bool false), .boolean⟩
    (fresh.call whole).1 = .error (.typeMismatch [.key "b"] "integer" "boolean") ∧
      ((fresh.after [list]).call whole).1 =
        .error (.typeMismatch [.key "a", .key "b"] "integer" "boolean") ∧
      (fresh.after [fixed]).finish = members := by
  intro members fresh list whole fixed
  exact ⟨rfl, rfl, rfl⟩

end RecordReader

end TypedArchive
