import Mathlib.Data.List.Infix
import Mathlib.Data.List.TakeWhile
import TypedArchive.Json.Parser
import TypedArchive.Proofs.Outcome
import TypedArchive.Proofs.Text.Utf8

/-! Where reading stops. A fault carries the line and the column that some of the bytes lead to. -/

namespace TypedArchive.NumberText

theorem accumulate_length (bound acc : Nat) (digits : List Nat) :
    (accumulate bound acc digits).2.length ≤ digits.length := by
  fun_induction accumulate bound acc digits with
  | case1 acc => exact Nat.le_refl _
  | case2 acc d rest fits ih => exact ih.trans (Nat.le_succ _)
  | case3 acc d rest large => exact Nat.le_refl _

theorem unreadDigits_le (down : Bool) (digits : List Nat) :
    unreadDigits (some (down, digits)) ≤ digits.length :=
  (Nat.sub_le ..).trans (accumulate_length ..)

end TypedArchive.NumberText

namespace TypedArchive.Json

open Text.Utf8

/-- The line that some bytes lead to, counted from one. -/
def lineAfter (read : List UInt8) : Nat := read.count 10 + 1

/-- The number of bytes on the line that some bytes lead to. -/
def columnAfter (read : List UInt8) : Nat := (read.reverse.takeWhile (· != 10)).length

@[simp] theorem lineAfter_newline (read : List UInt8) :
    lineAfter (read ++ [10]) = lineAfter read + 1 := by
  rw [lineAfter, lineAfter, List.count_append, List.count_singleton_self]

@[simp] theorem columnAfter_newline (read : List UInt8) : columnAfter (read ++ [10]) = 0 := by
  rw [columnAfter, List.reverse_append]
  rfl

theorem lineAfter_append {flat : List UInt8} (h : 10 ∉ flat) (read : List UInt8) :
    lineAfter (read ++ flat) = lineAfter read := by
  rw [lineAfter, lineAfter, List.count_append, List.count_eq_zero_of_not_mem h, Nat.add_zero]

theorem columnAfter_append {flat : List UInt8} (h : 10 ∉ flat) (read : List UInt8) :
    columnAfter (read ++ flat) = columnAfter read + flat.length := by
  have all : ∀ b ∈ flat.reverse, (b != 10) = true := fun b mem =>
    bne_iff_ne.mpr fun eq => h (eq ▸ List.mem_reverse.mp mem)
  rw [columnAfter, columnAfter, List.reverse_append, List.takeWhile_append_of_pos all,
    List.length_append, List.length_reverse, Nat.add_comm]

/-- A cursor stands in a text: it has the line and the column that the bytes before it lead to. -/
def Cursor.In (text : List UInt8) (c : Cursor) : Prop :=
  ∃ read, text = read ++ c.rest ∧ c.line = lineAfter read ∧ c.column = columnAfter read

/-- A line and a column of a text, as they are when some of its bytes were read. -/
def Place (text : List UInt8) (line column : Nat) : Prop :=
  ∃ rest, Cursor.In text ⟨rest, line, column⟩

/-- A fault is reported at a place of a text. -/
def ParseError.In (text : List UInt8) (e : ParseError) : Prop := Place text e.line e.column

section Cursor

variable {text : List UInt8}

theorem Cursor.in_ofBytes (text : List UInt8) : (Cursor.ofBytes text).In text :=
  ⟨[], rfl, rfl, rfl⟩

/-- Stepping over bytes of one line. -/
theorem Cursor.In.pass (front : List UInt8) {rest : List UInt8} {line column : Nat}
    (h : Cursor.In text ⟨front ++ rest, line, column⟩) (flat : 10 ∉ front) :
    Cursor.In text ⟨rest, line, column + front.length⟩ := by
  obtain ⟨read, eq, hline, hcolumn⟩ := h
  refine ⟨read ++ front, ?_, ?_, ?_⟩
  · rw [eq, List.append_assoc]
  · rw [lineAfter_append flat]
    exact hline
  · rw [columnAfter_append flat, ← hcolumn]

theorem Cursor.In.newline {rest : List UInt8} {line column : Nat}
    (h : Cursor.In text ⟨10 :: rest, line, column⟩) : Cursor.In text ⟨rest, line + 1, 0⟩ := by
  obtain ⟨read, eq, hline, -⟩ := h
  refine ⟨read ++ [10], ?_, ?_, ?_⟩
  · rw [eq, List.append_assoc, List.singleton_append]
  · rw [lineAfter_newline, ← hline]
  · rw [columnAfter_newline]

theorem Cursor.In.byte {b : UInt8} {rest : List UInt8} {line column : Nat}
    (h : Cursor.In text ⟨b :: rest, line, column⟩) (other : b ≠ 10) :
    Cursor.In text ⟨rest, line, column + 1⟩ :=
  h.pass [b] fun mem => other (List.mem_singleton.mp mem).symm

theorem Cursor.In.place {c : Cursor} (h : c.In text) : Place text c.line c.column := ⟨c.rest, h⟩

theorem Cursor.In.next {c : Cursor} (h : c.In text) : c.next.In text := by
  obtain ⟨rest, line, column⟩ := c
  cases rest with
  | nil => exact h
  | cons b rest =>
    rw [Cursor.next]
    split
    · next newline =>
      subst newline
      exact h.newline
    · next other => exact h.byte other

theorem Cursor.In.fault {c : Cursor} (h : c.In text) (f : Fault) : (c.fault f).In text := h.place

theorem Cursor.In.faultAhead {c : Cursor} (h : c.In text) (f : Fault) : (c.faultAhead f).In text :=
  h.next.fault f

theorem Cursor.In.skipBlanks {c : Cursor} (h : c.In text) : c.skipBlanks.In text := by
  obtain ⟨rest, line, column⟩ := c
  rw [Cursor.skipBlanks]
  fun_induction Cursor.blanksFrom line column rest with
  | case1 => exact h
  | case2 line column rest ih => exact ih h.newline
  | case3 line column b rest other blank ih => exact ih (h.byte other)
  | case4 => exact h

/-- Stepping over some of the digits ahead. -/
theorem Cursor.In.skip {c : Cursor} (h : c.In text) {n : Nat}
    (digits : n ≤ (c.rest.takeWhile Cursor.isDigit).length) : (c.skip n).In text := by
  obtain ⟨rest, line, column⟩ := c
  have front : rest.take n <+: rest.takeWhile Cursor.isDigit := by
    refine List.prefix_of_prefix_length_le (List.take_prefix n rest) (List.takeWhile_prefix _) ?_
    exact (List.length_take_le n rest).trans digits
  have flat : (10 : UInt8) ∉ rest.take n := fun mem =>
    absurd (List.mem_takeWhile_imp (front.subset mem)) (by decide)
  have length : (rest.take n).length = n :=
    List.length_take_of_le (digits.trans (List.takeWhile_prefix _).length_le)
  rw [← List.take_append_drop n rest] at h
  have := h.pass _ flat
  rwa [length] at this

theorem Cursor.In.afterDigits {c : Cursor} (h : c.In text) : c.afterDigits.In text :=
  h.skip (Nat.le_refl _)

/-- A fault after some bytes of the text is reported at the place that they lead to. -/
theorem Cursor.In.faultAfter {front rest : List UInt8} {line column : Nat}
    (h : Cursor.In text ⟨front ++ rest, line, column⟩) (f : Fault) :
    (faultAfter f line column front).In text := by
  induction front generalizing line column with
  | nil => exact h.place
  | cons b front ih =>
    rw [List.cons_append] at h
    rw [Json.faultAfter]
    split
    · next newline =>
      subst newline
      exact ih h.newline
    · next other => exact ih (h.byte other)

end Cursor

/-- A reader goes on in the text, or its fault is reported at a place of the text. -/
def Stays {α : Type} (text : List UInt8) : Except ParseError (α × Cursor) → Prop
  | .ok (_, c) => c.In text
  | .error e => e.In text

section Readers

variable {α β : Type} {text : List UInt8} {x : Except ParseError (α × Cursor)}

theorem Stays.bind {f : α × Cursor → Except ParseError (β × Cursor)} (hx : Stays text x)
    (hf : ∀ a c, x = .ok (a, c) → c.In text → Stays text (f (a, c))) : Stays text (x >>= f) := by
  cases x with
  | error e => exact hx
  | ok p => exact hf p.1 p.2 rfl hx

theorem Stays.map {f : α → β} (hx : Stays text x) :
    Stays text (x.map fun p => (f p.1, p.2)) := by
  cases x with
  | error e => exact hx
  | ok p => exact hx

/-- A reader that chooses stays in the text when both of its ways do. -/
theorem Stays.ite {p : Prop} [Decidable p] {y : Except ParseError (α × Cursor)}
    (hx : p → Stays text x) (hy : Stays text y) : Stays text (if p then x else y) := by
  split
  · next h => exact hx h
  · exact hy

theorem readIdent_stays {c : Cursor} (h : c.In text) (value : Json) (letters : List UInt8) :
    Stays text (readIdent c value letters) := by
  induction letters generalizing c with
  | nil => exact h
  | cons expected more ih =>
    rw [readIdent]
    split
    · exact h.fault _
    · split
      · exact ih h.next
      · exact h.next.fault _

theorem readFraction_stays {c : Cursor} (h : c.In text) : Stays text (readFraction c) := by
  rw [readFraction.eq_def]
  split
  · dsimp only
    split
    · split <;> exact h.next.faultAhead _
    · exact h.next.afterDigits
  · exact h

/-- The sign of an exponent may be there or not. -/
theorem Cursor.In.afterSign {c c' : Cursor} {down : Bool} (h : c.In text)
    (signed : (match c.rest with
      | 43 :: _ => (false, c.next)
      | 45 :: _ => (true, c.next)
      | _ => (false, c)) = (down, c')) : c'.In text := by
  split at signed <;> cases signed
  · exact h.next
  · exact h.next
  · exact h

/-- The digits of an exponent end at the cursor after it, so going back over some of them leads to a
place of the text. -/
theorem readExponent_stays {c : Cursor} (h : c.In text) :
    Stays text (readExponent c) ∧ ∀ exponent c', readExponent c = .ok (exponent, c') →
      ∀ k ≤ NumberText.unreadDigits exponent, Place text c'.line (c'.column - k) := by
  fun_cases readExponent c with
  | case1 e tail rest letter afterE down start signed ended =>
    refine ⟨(h.next.afterSign signed).fault _, ?_⟩
    rintro exponent c' ⟨⟩
  | case2 e tail rest letter afterE down start signed b rest' more digit =>
    have h' := h.next.afterSign signed
    refine ⟨h'.afterDigits, fun exponent c' read k le => ?_⟩
    cases read
    have few := le.trans (NumberText.unreadDigits_le down start.digits)
    rw [Cursor.digits, List.length_map] at few
    have back := (h'.skip (Nat.sub_le _ k)).place
    rwa [Cursor.skip, ← Nat.add_sub_assoc few] at back
  | case3 e tail rest letter afterE down start signed b rest' more other =>
    refine ⟨(h.next.afterSign signed).next.fault _, ?_⟩
    rintro exponent c' ⟨⟩
  | case4 | case5 =>
    refine ⟨h, fun exponent c' read k le => ?_⟩
    cases read
    rw [Nat.le_zero.mp le]
    exact h.place

theorem readNumber_stays {c : Cursor} (h : c.In text) (negative : Bool) :
    Stays text (readNumber negative c) := by
  rw [readNumber]
  split
  · exact h.fault _
  · next b rest _ =>
    split
    · exact h.next.fault _
    · dsimp only
      split
      · exact h.next.faultAhead _
      · have whole : (if b = 48 then ([0], c.next) else (c.digits, c.afterDigits)).2.In text := by
          split
          · exact h.next
          · exact h.afterDigits
        refine (readFraction_stays whole).bind fun fraction c₁ _ h₁ => ?_
        obtain ⟨stays, digits⟩ := readExponent_stays h₁
        refine stays.bind fun exponent c₂ read h₂ => ?_
        dsimp only
        split
        · exact h₂
        · exact digits exponent c₂ read _ (Nat.le_refl _)

end Readers

theorem low_of_hexValue? {x : UInt8} {n : Nat} (h : hexValue? x = some n) : x ≠ 10 ∧ x < 128 := by
  rw [hexValue?] at h
  split_ifs at h <;> grind

theorem flat_of_hexUnit? {a b c d : UInt8} {unit : Nat} (h : hexUnit? a b c d = some unit) :
    (10 : UInt8) ∉ [92, 117, a, b, c, d] ∧ d < 128 := by
  simp only [hexUnit?, Option.bind_eq_bind, Option.bind_eq_some_iff] at h
  obtain ⟨_, ha, _, hb, _, hc, _, hd, -⟩ := h
  refine ⟨?_, (low_of_hexValue? hd).2⟩
  simp [(low_of_hexValue? ha).1.symm, (low_of_hexValue? hb).1.symm, (low_of_hexValue? hc).1.symm,
    (low_of_hexValue? hd).1.symm]

theorem low_of_simpleEscape? {b b' : UInt8} (h : simpleEscape? b = some b') :
    b ≠ 10 ∧ b < 128 ∧ b' < 128 := by
  rw [simpleEscape?] at h
  split_ifs at h <;> grind

theorem encoded_utf8Reversed (code : Nat) : Encoded (utf8Reversed code).reverse := by
  rw [utf8Reversed, List.reverse_reverse]
  exact encoded_text _

/-- An escape in encoded bytes is replaced by what it stands for, which is encoded. -/
theorem encoded_unescape (front more : List UInt8) {read rest : List UInt8} {last : UInt8}
    (h : Encoded (read.reverse ++ 92 :: (front ++ last :: rest))) (low : last < 128)
    (encoded : Encoded more.reverse) : Encoded ((more ++ read).reverse ++ rest) := by
  obtain ⟨before, after⟩ := h.split (by decide)
  rw [List.reverse_append]
  exact (before.append encoded).append (after.split low).2

/-- A string goes on in the text, or its fault is reported at a place of the text, and is not that
its bytes are no text. -/
def ReadsText (text : List UInt8) : Except ParseError (String × Cursor) → Prop
  | .ok (_, c) => c.In text
  | .error e => e.In text ∧ e.fault ≠ .invalidCodePoint

theorem faultAfter_fault (f : Fault) (line column : Nat) (bytes : List UInt8) :
    (faultAfter f line column bytes).fault = f := by
  fun_induction faultAfter f line column bytes with
  | case1 => rfl
  | case2 line column rest ih => exact ih
  | case3 line column b rest other ih => exact ih

section Strings

variable {text : List UInt8}

theorem Cursor.In.readsText (front : List UInt8) {rest : List UInt8} {line column : Nat}
    (h : Cursor.In text ⟨front ++ rest, line, column⟩) {f : Fault} (other : f ≠ .invalidCodePoint) :
    ReadsText text (.error (Json.faultAfter f line column front)) :=
  ⟨h.faultAfter f, fun eq => other ((faultAfter_fault ..).symm.trans eq)⟩

theorem Cursor.In.readsText_end {bytes : List UInt8} {line column : Nat}
    (h : Cursor.In text ⟨bytes, line, column⟩) {f : Fault} (other : f ≠ .invalidCodePoint) :
    ReadsText text (.error (Json.faultAfter f line column bytes)) :=
  Cursor.In.readsText bytes ((List.append_nil bytes).symm ▸ h) other

theorem stringBody_readsText {line column : Nat} {read bytes : List UInt8}
    (h : Cursor.In text ⟨bytes, line, column⟩) (encoded : Encoded (read.reverse ++ bytes)) :
    ReadsText text (stringBody line column read bytes) := by
  fun_induction stringBody line column read bytes with
  | case1 column read => exact ⟨h.place, nofun⟩
  | case2 column read rest s found => exact h.byte (by decide)
  | case3 column read rest missing =>
    obtain ⟨s, found⟩ := (encoded.split (by decide)).1.exists_text
    cases missing.symm.trans found
  | case4 column read => exact ⟨(h.byte (by decide)).place, nofun⟩
  | case5 column read a b c d rest noUnit =>
    exact (h.pass [92, 117] (by decide)).readsText [a, b, c, d] nofun
  | case6 column read a b c d rest unit found lone =>
    exact ⟨(h.pass _ (flat_of_hexUnit? found).1).place, nofun⟩
  | case7 column read a b c d unit found notLow isHigh e f g h' rest noUnit =>
    have second := h.pass _ (flat_of_hexUnit? found).1
    exact (second.pass [92, 117] (by decide)).readsText [e, f, g, h'] nofun
  | case8 column read a b c d unit found notLow isHigh e f g h' rest low found' isLow code ih =>
    have second := h.pass _ (flat_of_hexUnit? found).1
    refine ih (second.pass _ (flat_of_hexUnit? found').1) ?_
    exact encoded_unescape [117, a, b, c, d, 92, 117, e, f, g] _ encoded
      (flat_of_hexUnit? found').2 (encoded_utf8Reversed _)
  | case9 column read a b c d unit found notLow isHigh e f g h' rest low found' notLow' =>
    have second := h.pass _ (flat_of_hexUnit? found).1
    exact ⟨(second.pass _ (flat_of_hexUnit? found').1).place, nofun⟩
  | case10 column read a b c d unit found notLow isHigh short incomplete =>
    have second := h.pass _ (flat_of_hexUnit? found).1
    exact (second.pass [92, 117] (by decide)).readsText_end nofun
  | case11 column read a b c d unit found notLow isHigh =>
    have second := h.pass _ (flat_of_hexUnit? found).1
    exact ⟨(second.byte (by decide)).place, nofun⟩
  | case12 column read a b c d unit found notLow isHigh other tail =>
    have second := h.pass _ (flat_of_hexUnit? found).1
    exact (second.byte (by decide)).readsText [other] nofun
  | case13 column read a b c d unit found notLow isHigh other tail =>
    exact (h.pass _ (flat_of_hexUnit? found).1).readsText [other] nofun
  | case14 column read a b c d unit found notLow isHigh =>
    exact ⟨(h.pass _ (flat_of_hexUnit? found).1).place, nofun⟩
  | case15 column read a b c d rest unit found notLow notHigh ih =>
    refine ih (h.pass _ (flat_of_hexUnit? found).1) ?_
    exact encoded_unescape [117, a, b, c] _ encoded (flat_of_hexUnit? found).2
      (encoded_utf8Reversed _)
  | case16 column read short incomplete =>
    exact (h.pass [92, 117] (by decide)).readsText_end nofun
  | case17 column read b rest notUnit notLetter b' found ih =>
    obtain ⟨flat, low, low'⟩ := low_of_simpleEscape? found
    refine ih ((h.byte (by decide)).byte flat) ?_
    exact encoded_unescape [] [b'] encoded low (encoded_byte low')
  | case18 column read b rest notUnit notLetter noEscape =>
    exact (h.byte (by decide)).readsText [b] nofun
  | case19 column read b rest =>
    exact h.readsText [b] nofun
  | case20 column read b rest _ _ _ _ _ visible ih =>
    refine ih (h.byte ?_) ?_
    · rintro rfl
      exact visible (by decide)
    · rwa [List.reverse_cons, List.append_assoc, List.singleton_append]

theorem readString_stays {c : Cursor} (h : c.In text) (encoded : Encoded c.rest) :
    Stays text (readString c) := by
  have reads : ReadsText text (stringBody c.line c.column [] c.rest) :=
    stringBody_readsText h encoded
  rw [readString]
  split
  · next line column failed =>
    rw [failed] at reads
    exact absurd rfl reads.2
  · cases body : stringBody c.line c.column [] c.rest with
    | error e =>
      rw [body] at reads
      exact reads.1
    | ok p =>
      rw [body] at reads
      exact reads

end Strings

section Containers

variable {text : List UInt8} (encoded : Encoded text)

include encoded

/-- After a quote the text is encoded. -/
theorem quoted_stays {c : Cursor} (h : c.In text) {rest : List UInt8}
    (quote : c.rest = 34 :: rest) : Stays text (readString c.next) := by
  refine readString_stays h.next ?_
  obtain ⟨bytes, line, column⟩ := c
  obtain ⟨read, eq, -⟩ := h
  cases quote
  rw [eq] at encoded
  exact (encoded.split (by decide)).2

variable {element : Cursor → Except ParseError (Json × Cursor)}
  (inner : ∀ c : Cursor, c.In text → Stays text (element c))

include inner

omit encoded in
theorem readItems_stays {budget : Nat} {first : Bool} {read : List Json} {c : Cursor}
    (h : c.In text) : Stays text (readItems element budget first read c) := by
  induction budget generalizing first read c with
  | zero => exact h.fault _
  | succ budget ih =>
    have h := h.skipBlanks
    rw [readItems]
    split
    · exact h.faultAhead _
    · exact h.next
    · split
      · exact (inner _ h).bind fun v c₁ _ h₁ => ih h₁
      · split
        · have h := h.next.skipBlanks
          dsimp only
          split
          · exact h.faultAhead _
          · exact h.faultAhead _
          · exact (inner _ h).bind fun v c₁ _ h₁ => ih h₁
        · exact h.faultAhead _

theorem readMember_stays {c : Cursor} (h : c.In text) {rest : List UInt8}
    (quote : c.rest = 34 :: rest) : Stays text (readMember element c) := by
  refine (quoted_stays encoded h quote).bind fun key c₁ _ h₁ => ?_
  have h₁ := h₁.skipBlanks
  dsimp only
  split
  · exact h₁.faultAhead _
  · split
    · exact (inner _ h₁.next).bind fun v c₂ _ h₂ => h₂
    · exact h₁.faultAhead _

theorem readMembers_stays {budget : Nat} {first : Bool} {read : Assoc Json} {c : Cursor}
    (h : c.In text) : Stays text (readMembers element budget first read c) := by
  induction budget generalizing first read c with
  | zero => exact h.fault _
  | succ budget ih =>
    have h := h.skipBlanks
    have member {c : Cursor} (h : c.In text) {rest : List UInt8} (quote : c.rest = 34 :: rest) :
        Stays text (readMember element c >>= fun p =>
          readMembers element budget false (read.insert p.1.1 p.1.2) p.2) :=
      (readMember_stays encoded inner h quote).bind fun p c₁ _ h₁ => ih h₁
    rw [readMembers]
    split
    · exact h.faultAhead _
    · next b rest ahead =>
      split
      · exact h.next
      · split
        · split
          · next quote =>
            subst quote
            exact member h ahead
          · exact h.faultAhead _
        · split
          · have h := h.next.skipBlanks
            dsimp only
            split
            · exact h.faultAhead _
            · next b' rest' ahead' =>
              split
              · next quote =>
                subst quote
                exact member h ahead'
              · split <;> exact h.faultAhead _
          · exact h.faultAhead _

end Containers

theorem readValue_stays {text : List UInt8} (encoded : Encoded text) (depth : Nat) {c : Cursor}
    (h : c.In text) : Stays text (readValue depth c) := by
  induction depth generalizing c with
  | zero => exact h.fault _
  | succ depth ih =>
    have h := h.skipBlanks
    rw [readValue]
    split
    · exact h.faultAhead _
    · next b rest ahead =>
      have ahead' (f : Fault) : Stays text (.error (c.skipBlanks.faultAhead f) :
          Except ParseError (Json × Cursor)) := h.faultAhead f
      -- one step for each byte a value can start with, in the reader's order
      refine .ite (fun _ => readIdent_stays h.next _ _) ?_
      refine .ite (fun _ => readIdent_stays h.next _ _) ?_
      refine .ite (fun _ => readIdent_stays h.next _ _) ?_
      refine .ite (fun _ => readNumber_stays h.next _) ?_
      refine .ite (fun _ => readNumber_stays h _) ?_
      refine .ite (fun quote => (quoted_stays encoded h (quote ▸ ahead)).map) ?_
      refine .ite (fun _ => .ite (fun _ => ahead' _) ?_) ?_
      · exact (readItems_stays (fun _ => ih) h.next).map
      · refine .ite (fun _ => .ite (fun _ => ahead' _) ?_) (ahead' _)
        exact (readMembers_stays encoded (fun _ => ih) h.next).map

/-- A text that is no value has its fault reported at a place of the text. -/
theorem in_of_parse {text : String} {e : ParseError} (h : parse text = .error e) :
    e.In text.toUTF8.toList := by
  have encoded := encoded_text text
  rw [parse, parseBytes] at h
  rcases Outcome.bind_eq_error.mp h with failed | ⟨⟨v, c⟩, read, h⟩
  · have stays := readValue_stays encoded depthLimit (Cursor.in_ofBytes _)
    rw [failed] at stays
    exact stays
  · have stays := readValue_stays encoded depthLimit (Cursor.in_ofBytes _)
    rw [read] at stays
    dsimp only at h
    split at h
    · cases h
    · cases h
      exact (Cursor.In.skipBlanks stays).faultAhead _

end TypedArchive.Json
