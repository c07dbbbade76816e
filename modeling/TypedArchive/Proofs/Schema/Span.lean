import TypedArchive.Proofs.Json.Position
import TypedArchive.Proofs.Schema.Bytes
import TypedArchive.Proofs.Schema.Load

/-! The span of a document that is no JSON. It lies in the text, on the line of the fault, unless
that is an empty last line: then it is the byte after the text. -/

namespace TypedArchive

namespace Json

/-- A fault is reported on the last line of a text, and nothing stands on this line. -/
def ParseError.OnEmptyLine (text : List UInt8) (e : ParseError) : Prop :=
  e.line = lineAfter text ∧ columnAfter text = 0

theorem columnAfter_of_flat {flat : List UInt8} (h : 10 ∉ flat) :
    columnAfter flat = flat.length := by
  rw [← List.nil_append flat, columnAfter_append h, columnAfter, List.reverse_nil,
    List.takeWhile_nil, List.length_nil, Nat.zero_add, List.nil_append]

/-- A byte before the last line feed does not count. -/
theorem columnAfter_cons {b : UInt8} {read : List UInt8} (h : 10 ∈ b :: read) :
    columnAfter (b :: read) = columnAfter read := by
  by_cases earlier : (10 : UInt8) ∈ read
  · have stops : (read.reverse.takeWhile (· != 10)).length ≠ read.reverse.length := by
      intro all
      have all := (List.takeWhile_prefix (· != 10)).eq_of_length all
      have := List.takeWhile_eq_self_iff.mp all 10 (List.mem_reverse.mpr earlier)
      exact absurd this (by decide)
    rw [columnAfter, columnAfter, List.reverse_cons, List.takeWhile_append, if_neg stops]
  · obtain rfl := (List.mem_cons.mp h).resolve_right earlier
    rw [← List.singleton_append, columnAfter_append earlier, columnAfter_of_flat earlier,
      ← List.nil_append [10], columnAfter_newline, Nat.zero_add]

/-- The last byte of a line is no line feed, so without it the line is the same. -/
theorem exists_concat_of_columnAfter {read : List UInt8} (filled : 0 < columnAfter read) :
    ∃ init b, read = init ++ [b] ∧ lineAfter read = lineAfter init := by
  obtain ⟨init, b, rfl⟩ : ∃ init b, read = init ++ [b] :=
    (List.eq_nil_or_concat' read).resolve_left (by rintro rfl; exact absurd filled (by decide))
  have other : b ≠ 10 := by
    rintro rfl
    rw [columnAfter_newline] at filled
    exact Nat.lt_irrefl 0 filled
  refine ⟨init, b, rfl, lineAfter_append ?_ init⟩
  exact fun mem => other (List.mem_singleton.mp mem).symm

end Json

namespace SchemaError

open Json

theorem bytesInLines_zero (bytes : List UInt8) : bytesInLines 0 bytes = 0 := by
  cases bytes <;> rfl

/-- The first lines of a text end where the line begins to which some bytes lead. -/
theorem bytesInLines_add_columnAfter (read more : List UInt8) :
    bytesInLines (lineAfter read - 1) (read ++ more) + columnAfter read = read.length := by
  rw [lineAfter, Nat.add_sub_cancel]
  induction read with
  | nil => rw [List.count_nil, bytesInLines_zero]; rfl
  | cons b read ih =>
    by_cases lines : (10 : UInt8) ∈ b :: read
    · rw [columnAfter_cons lines, List.length_cons, ← ih]
      by_cases newline : b = 10
      · subst newline
        rw [List.count_cons_self, List.cons_append, bytesInLines, if_pos rfl]
        omega
      · have earlier := (List.mem_cons.mp lines).resolve_left (Ne.symm newline)
        obtain ⟨k, count⟩ := Nat.exists_eq_add_one_of_ne_zero (List.count_pos_iff.mpr earlier).ne'
        rw [List.count_cons_of_ne newline, count, List.cons_append, bytesInLines, if_neg newline]
        omega
    · rw [List.count_eq_zero_of_not_mem lines, columnAfter_of_flat lines,
        bytesInLines_zero, Nat.zero_add]

/-- A fault is reported on an empty last line just when all was read and nothing on this line. -/
theorem onEmptyLine_iff {read rest : List UInt8} {e : ParseError} (line : e.line = lineAfter read)
    (column : e.column = columnAfter read) :
    e.OnEmptyLine (read ++ rest) ↔ rest = [] ∧ e.column = 0 := by
  constructor
  · rintro ⟨last, blank⟩
    have flat : (10 : UInt8) ∉ rest := by
      rw [line, lineAfter, lineAfter, List.count_append] at last
      exact List.count_eq_zero.mp (by omega)
    rw [columnAfter_append flat, ← column] at blank
    exact ⟨List.eq_nil_of_length_eq_zero (by omega), by omega⟩
  · rintro ⟨rfl, blank⟩
    rw [List.append_nil]
    exact ⟨line, column.symm.trans blank⟩

/-- The span of a fault is the last byte that was read on the line, or the next byte if none was. -/
theorem span_eq {read : List UInt8} {e : ParseError} (line : e.line = lineAfter read)
    (column : e.column = columnAfter read) (rest : List UInt8) :
    span (read ++ rest) e = some (read.length - min e.column 1, 1) := by
  have start := bytesInLines_add_columnAfter read rest
  rw [← line, ← column] at start
  have counted : e.line ≠ 0 := line ▸ Nat.succ_ne_zero _
  have offset : min (bytesInLines (e.line - 1) (read ++ rest) + (e.column - 1))
      (read ++ rest).length = read.length - min e.column 1 := by
    rw [List.length_append]
    omega
  rw [span, if_neg counted, offset]

/-- The span is in the text and on the line of the fault, unless this is an empty last line: then it
is the byte after the text. -/
theorem exists_span {text : List UInt8} {e : ParseError} (h : e.In text) :
    ∃ offset, span text e = some (offset, 1) ∧
      (e.OnEmptyLine text → offset = text.length) ∧
      (¬e.OnEmptyLine text → offset + 1 ≤ text.length ∧ lineAfter (text.take offset) = e.line) := by
  obtain ⟨rest, read, rfl, line, column⟩ := h
  dsimp only at line column ⊢
  refine ⟨_, span_eq line column rest, ?_⟩
  rw [onEmptyLine_iff line column, List.length_append]
  rcases Nat.eq_zero_or_pos e.column with blank | filled
  · rw [blank, Nat.zero_min, Nat.sub_zero, List.take_left]
    refine ⟨fun ended => ?_, fun more => ⟨?_, line.symm⟩⟩
    · rw [ended.1, List.length_nil, Nat.add_zero]
    · have := List.length_pos_of_ne_nil fun ended => more ⟨ended, rfl⟩
      omega
  · obtain ⟨init, b, rfl, same⟩ := exists_concat_of_columnAfter (column ▸ filled)
    rw [Nat.min_eq_right filled, List.length_append, List.length_singleton, Nat.add_sub_cancel]
    refine ⟨fun ended => absurd ended.2 filled.ne', fun _ => ⟨Nat.le_add_right _ _, ?_⟩⟩
    rw [List.append_assoc, List.take_left, line, same]

end SchemaError

namespace Graph

/-- An error does not say that a document is no JSON. -/
def OfSchema : SchemaError → Prop
  | .parse _ (.json _) _ => False
  | _ => True

/-- A loading step that fails does so for what a schema says. -/
def Parsed {α : Type} (x : Load α) : Prop := ∀ ⦃g e⦄, x g = .error e → OfSchema e

section Parsed

variable {α β : Type}

theorem Parsed.pure (a : α) : Parsed (pure a) := by
  rintro g e ⟨⟩

theorem Parsed.fail {e : SchemaError} (schema : OfSchema e) : Parsed (fail e : Load α) := by
  rintro g _ ⟨⟩
  exact schema

theorem Parsed.lift {x : Except SchemaError α} (hx : ∀ e, x = .error e → OfSchema e) :
    Parsed (liftM x) := by
  rintro g e h
  cases x with
  | error e' =>
    cases h
    exact hx e rfl
  | ok a => cases h

theorem Parsed.bind {x : Load α} {f : α → Load β} (hx : Parsed x) (hf : ∀ a, Parsed (f a)) :
    Parsed (x >>= f) := by
  intro g e h
  rcases Outcome.bind_run_eq_error.mp h with first | ⟨a, g', -, later⟩
  · exact hx first
  · exact hf a later

theorem Parsed.map {x : Load α} (f : α → β) (hx : Parsed x) : Parsed (f <$> x) := by
  rw [map_eq_pure_bind]
  exact hx.bind fun a => .pure _

theorem Parsed.mapM {f : α → Load β} (each : ∀ a, Parsed (f a)) (xs : List α) :
    Parsed (xs.mapM f) := by
  induction xs with
  | nil => exact .pure _
  | cons x xs ih =>
    rw [List.mapM_cons]
    exact (each x).bind fun y => ih.bind fun ys => .pure _

end Parsed

theorem readKeywords_ofSchema {document : String} {pointer : Pointer} {schema : Json}
    {members : Assoc Json} {e : SchemaError}
    (h : readKeywords document pointer schema members = .error e) : OfSchema e := by
  rw [readKeywords] at h
  split at h
  · split at h <;> cases h
    exact trivial
  · split at h <;> cases h
    exact trivial
  · cases h
    exact trivial

theorem readDeclaredType_ofSchema {id : String} {members : Assoc Json} {e : SchemaError}
    (h : readDeclaredType id members = .error e) : OfSchema e := by
  rw [readDeclaredType] at h
  split at h <;> cases h
  exact trivial

theorem kindOf_ofSchema {n : Node} {declared : Option String} {e : SchemaError}
    (h : kindOf n declared = .error e) : OfSchema e := by
  revert h
  fun_cases kindOf n declared <;> rintro ⟨⟩
  exact trivial

section Children

variable {document : String} {visit : Pointer → Json → Load Nat}
  (inner : ∀ pointer v, Parsed (visit pointer v))

include inner

theorem visitMembers_parsed (pointer : Pointer) (keyword : String) (v : Option Json) :
    Parsed (visitMembers visit pointer keyword v) := by
  rw [visitMembers.eq_def]
  split
  · exact .mapM (fun p => (inner _ _).bind fun i => .pure _) _
  · exact .pure _

theorem visitBranches_parsed (pointer : Pointer) (keyword : String) (v : Option Json) :
    Parsed (visitBranches visit document pointer keyword v) := by
  rw [visitBranches.eq_def]
  split
  · exact .mapM (fun p => inner _ _) _
  · exact .fail trivial
  · exact .pure _

theorem visitItems_parsed (pointer : Pointer) (v : Option Json) :
    Parsed (visitItems visit pointer v) := by
  rw [visitItems.eq_def]
  split
  · exact (inner _ _).map _
  · exact (inner _ _).map _
  · exact .pure _

theorem visitAdditional_parsed (pointer : Pointer) (members : Assoc Json) :
    Parsed (visitAdditional visit pointer members) := by
  rw [visitAdditional]
  split
  · exact (inner _ _).map _
  · exact (visitMembers_parsed inner _ _ _).bind fun _ => .pure _

theorem visitKeywords_parsed (pointer : Pointer) (schema : Json) (members : Assoc Json) :
    Parsed (visitKeywords visit document pointer schema members) := by
  rw [visitKeywords]
  refine .bind (.lift fun _ => readKeywords_ofSchema) fun keywords => ?_
  refine .bind (.lift fun _ => readDeclaredType_ofSchema) fun declared => ?_
  refine .bind (visitMembers_parsed inner _ _ _) fun _ => ?_
  refine .bind (visitMembers_parsed inner _ _ _) fun _ => ?_
  refine .bind (visitMembers_parsed inner _ _ _) fun properties => ?_
  refine .bind (visitItems_parsed inner _ _) fun items => ?_
  refine .bind (visitAdditional_parsed inner _ _) fun additional => ?_
  refine .bind (visitBranches_parsed inner _ _ _) fun allOf => ?_
  refine .bind (visitBranches_parsed inner _ _ _) fun oneOf => ?_
  refine .bind (visitBranches_parsed inner _ _ _) fun anyOf => ?_
  refine .bind (.lift fun _ => kindOf_ofSchema) fun kind => ?_
  rintro g e ⟨⟩

end Children

theorem visit_parsed (document : String) (depth : Nat) (pointer : Pointer) (v : Json) :
    Parsed (visit document depth pointer v) := by
  induction depth generalizing pointer v with
  | zero =>
    rw [visit.eq_def]
    exact .fail trivial
  | succ depth ih =>
    cases v with
    | object members =>
      rw [visit]
      exact visitKeywords_parsed ih _ _ _
    | bool b =>
      rw [visit]
      exact visitKeywords_parsed ih _ _ _
    | null | number _ | string _ | array _ =>
      rw [visit.eq_def]
      exact .fail trivial

/-- A document is no JSON if reading it fails so, and then its text has the fault and the span. -/
theorem loadDocument_eq_error {name text document : String} {e : Json.ParseError}
    {span : Option (Nat × Nat)} {g : Graph} :
    loadDocument name text g = .error (.parse document (.json e) span) ↔
      name = document ∧ Json.parse text = .error e ∧
        span = SchemaError.span text.toUTF8.toList e := by
  rw [loadDocument, Json.parse]
  cases parsed : Json.parseBytes text.toUTF8.toList with
  | error e' =>
    constructor
    · rintro ⟨⟩
      exact ⟨rfl, rfl, rfl⟩
    · rintro ⟨rfl, ⟨⟩, rfl⟩
      rfl
  | ok v =>
    refine iff_of_false (fun h => ?_) (by rintro ⟨-, ⟨⟩, -⟩)
    have ofSchema : Parsed (do
        let root ← visit name (v.depth + 1) [] v
        modify fun g => { g with roots := g.roots.insert name root } : Load Unit) :=
      (visit_parsed ..).bind fun root => by rintro g e ⟨⟩
    exact (ofSchema h).elim

/-- Loading says that a document is no JSON when this is the first document that cannot be read. -/
theorem load_eq_error {b : Bundle} {document : String} {e : Json.ParseError}
    {span : Option (Nat × Nat)} :
    load b = .error (.parse document (.json e) span) ↔ ∃ before text after,
      b.documents = before ++ (document, text) :: after ∧ (readAll ⟨before⟩).isOk = true ∧
        Json.parse text = .error e ∧ span = SchemaError.span text.toUTF8.toList e := by
  have linked {g : Graph} {n : Node} : ∀ e, g.link n = .error e → OfSchema e := by
    intro e h
    rw [link] at h
    split at h
    · cases h
    · split at h <;> cases h
      exact trivial
  rw [load, Outcome.bind_eq_error]
  constructor
  · rintro (h | ⟨⟨u, g⟩, -, h⟩)
    · obtain ⟨before, ⟨name, text⟩, after, u, g, split, read, failed⟩ :=
        Outcome.forM_run_eq_error.mp h
      obtain ⟨rfl, parsed, spans⟩ := loadDocument_eq_error.mp failed
      have all : readAll ⟨before⟩ = .ok g := Outcome.map_eq_ok.mpr ⟨_, read, rfl⟩
      exact ⟨before, text, after, split, all ▸ rfl, parsed, spans⟩
    · rcases Outcome.bind_eq_error.mp h with links | ⟨nodes, -, h⟩
      · rw [Array.mapM_eq_mapM_toList, map_eq_pure_bind] at links
        rcases Outcome.bind_eq_error.mp links with links | ⟨nodes, -, h⟩
        · obtain ⟨n, -, fails⟩ := Outcome.exists_of_mapM_eq_error links
          exact (linked _ fails).elim
        · cases h
      · cases h
  · rintro ⟨before, text, after, split, read, parsed, spans⟩
    obtain ⟨g, read⟩ := Outcome.exists_of_isOk read
    obtain ⟨u, read⟩ := readAll_eq_ok read
    refine .inl (Outcome.forM_run_eq_error.mpr ⟨before, _, after, u, g, split, read, ?_⟩)
    exact loadDocument_eq_error.mpr ⟨rfl, parsed, spans⟩

/-- If the first document that cannot be read is no JSON, loading says so with a span of one byte.
The fault has the line and the column of a place of the text. The span lies inside the text and its
byte is on that line, unless the fault is reported on an empty last line: then the span begins where
the text ends. -/
theorem span_of_load (b : Bundle) :
    (∀ before document text after e, b.documents = before ++ (document, text) :: after →
      (readAll ⟨before⟩).isOk = true → Json.parse text = .error e →
      ∃ offset, load b = .error (.parse document (.json e) (some (offset, 1)))) ∧
    ∀ document e span, load b = .error (.parse document (.json e) span) →
      ∃ text offset, (document, text) ∈ b.documents ∧ Json.parse text = .error e ∧
        e.In text.toUTF8.toList ∧ span = some (offset, 1) ∧
        (e.OnEmptyLine text.toUTF8.toList → offset = text.utf8ByteSize) ∧
        (¬e.OnEmptyLine text.toUTF8.toList → offset + 1 ≤ text.utf8ByteSize ∧
          Json.lineAfter (text.toUTF8.toList.take offset) = e.line) := by
  constructor
  · intro before document text after e split read parsed
    obtain ⟨offset, spans, -⟩ := SchemaError.exists_span (Json.in_of_parse parsed)
    exact ⟨offset, load_eq_error.mpr ⟨before, text, after, split, read, parsed, spans.symm⟩⟩
  · intro document e span failed
    obtain ⟨before, text, after, split, -, parsed, spans⟩ := load_eq_error.mp failed
    have inside := Json.in_of_parse parsed
    obtain ⟨offset, spanned, place⟩ := SchemaError.exists_span inside
    have mem : (document, text) ∈ b.documents :=
      split ▸ List.mem_append_right before List.mem_cons_self
    have size : text.toUTF8.toList.length = text.utf8ByteSize := by
      rw [Text.toList_eq, Array.length_toList]
      rfl
    rw [size] at place
    exact ⟨text, offset, mem, parsed, inside, spans.trans spanned, place⟩

set_option maxRecDepth 100000 in
/-- A list that goes on after its last comma, with a character of two bytes, after a document that
is read. -/
theorem span_of_load_comma :
    let text := "[\n  \"é\",\n]"
    let b : Bundle := ⟨[("a.json", "true"), ("b.json", text)]⟩
    let e : Json.ParseError := ⟨.trailingComma, 3, 1⟩
    (readAll ⟨[("a.json", "true")]⟩).isOk = true ∧ Json.parse text = .error e ∧
      ¬e.OnEmptyLine text.toUTF8.toList ∧
      ∃ offset, load b = .error (.parse "b.json" (.json e) (some (offset, 1))) ∧
        offset + 1 ≤ text.utf8ByteSize ∧
        Json.lineAfter (text.toUTF8.toList.take offset) = 3 := by
  intro text b e
  have bytes : text.toUTF8.toList = [91, 10, 32, 32, 34, 195, 169, 34, 44, 10, 93] := by
    rw [Text.toList_eq]
    decide +kernel
  have loads : (load ⟨[("a.json", "true")]⟩).isOk = true := by
    rw [load_eq_loadBytes]
    decide +kernel
  obtain ⟨g, loaded⟩ := Outcome.exists_of_isOk loads
  obtain ⟨g₀, all, -⟩ := exists_readAll_of_load loaded
  have read : (readAll ⟨[("a.json", "true")]⟩).isOk = true := by rw [all]; rfl
  have parsed : Json.parse text = .error e := by
    rw [Json.parse, bytes]
    exact Outcome.fault_id_eq_some.mp (by decide +kernel)
  have own : ¬e.OnEmptyLine text.toUTF8.toList := by
    rw [bytes, Json.ParseError.OnEmptyLine]
    decide
  obtain ⟨offset, failed⟩ := (span_of_load b).1 _ _ text [] e rfl read parsed
  obtain ⟨text', offset', mem, parsed', -, spans, -, inside⟩ := (span_of_load b).2 _ _ _ failed
  cases spans
  have other : "b.json" ≠ "a.json" := by decide
  have same : text' = text := by
    rcases List.mem_cons.mp mem with first | rest
    · exact absurd (congrArg Prod.fst first) other
    · cases List.mem_singleton.mp rest
      rfl
  subst same
  exact ⟨read, parsed, own, offset, failed, inside own⟩

/-- A text that ends before the first byte of its last line has its span after its last byte. -/
theorem span_beyond_text :
    load ⟨[("a.json", "")]⟩ =
      .error (.parse "a.json" (.json ⟨.eofValue, 1, 0⟩) (some (0, 1))) ∧
    ¬0 + 1 ≤ "".utf8ByteSize ∧
    load ⟨[("a.json", "[\n")]⟩ =
      .error (.parse "a.json" (.json ⟨.eofList, 2, 0⟩) (some (2, 1))) ∧
    ¬2 + 1 ≤ "[\n".utf8ByteSize := by
  have blank : Outcome.fault id (load ⟨[("a.json", "")]⟩) =
      some (.parse "a.json" (.json ⟨.eofValue, 1, 0⟩) (some (0, 1))) := by
    rw [load_eq_loadBytes]
    decide +kernel
  have unclosed : Outcome.fault id (load ⟨[("a.json", "[\n")]⟩) =
      some (.parse "a.json" (.json ⟨.eofList, 2, 0⟩) (some (2, 1))) := by
    rw [load_eq_loadBytes]
    decide +kernel
  exact ⟨Outcome.fault_id_eq_some.mp blank, by decide, Outcome.fault_id_eq_some.mp unclosed,
    by decide⟩

end Graph

end TypedArchive
