import Mathlib.Algebra.BigOperators.Group.List.Basic
import Mathlib.Data.Nat.Digits.Defs
import Mathlib.Tactic.Ring
import TypedArchive.Archive.Uuid
import TypedArchive.Proofs.Outcome
import TypedArchive.Proofs.Text.Casing

/-! Which texts are read as identifiers, and as which. Besides hyphens a text has 32 hexadecimal
digits, or a plus and 31; neither the hyphens nor the case of letters matter. -/

namespace TypedArchive.Archive.Uuid

/-- A character is, but for its case, the digit of a number below 16. -/
def DigitOf (c : Char) (d : Nat) : Prop := d < 16 ∧ c.toLower = d.digitChar

/-- Characters that are the 32 hexadecimal digits of a number. -/
def Hexadecimal (cs : List Char) (n : Nat) : Prop :=
  cs.length = 32 ∧ ∃ ds, List.Forall₂ DigitOf cs ds ∧ n = Nat.ofDigits 16 ds.reverse

/-- Characters that spell a number: 32 hexadecimal digits, or a plus and 31. -/
def Numeral (cs : List Char) (n : Nat) : Prop :=
  cs.length = 32 ∧ ∃ sign digits ds, (sign = [] ∨ sign = ['+']) ∧ cs = sign ++ digits ∧
    List.Forall₂ DigitOf digits ds ∧ n = Nat.ofDigits 16 ds.reverse

variable {c : Char} {cs cs' digits : List Char} {d n : Nat} {ds : List Nat} {text : String}
  {u : Uuid}

section Characters

theorem digitValue?_ascii (small : c.toNat < 128) (bound : d < 16) :
    digitValue? c = some d ↔ c.toLower = d.digitChar :=
  Text.forall_ascii (p := fun c => ∀ d < 16, digitValue? c = some d ↔ c.toLower = d.digitChar)
    (by decide +kernel) small d bound

theorem toLower_of_not_ascii (large : 128 ≤ c.toNat) : c.toLower = c := by
  unfold Char.toLower
  split
  · next upper =>
    have small : c.toNat ≤ 90 := upper.2
    omega
  · rfl

theorem digitValue?_bounds (h : digitValue? c = some d) : d < 16 ∧ c.toNat < 128 := by
  unfold digitValue? at h
  split at h
  · next range =>
    have upper : c.toNat ≤ 57 := range.2
    rw [← Option.some.inj h]
    change c.toNat - 48 < 16 ∧ _
    omega
  · split at h
    · next range =>
      have upper : c.toNat ≤ 102 := range.2
      rw [← Option.some.inj h]
      change c.toNat - 97 + 10 < 16 ∧ _
      omega
    · split at h
      · next range =>
        have upper : c.toNat ≤ 70 := range.2
        rw [← Option.some.inj h]
        change c.toNat - 65 + 10 < 16 ∧ _
        omega
      · cases h

theorem digitChar_ascii : ∀ d < 16, d.digitChar.toNat < 128 := by decide

theorem digitValue?_eq_some : digitValue? c = some d ↔ DigitOf c d := by
  by_cases small : c.toNat < 128
  · constructor
    · intro h
      have bound := (digitValue?_bounds h).1
      exact ⟨bound, (digitValue?_ascii small bound).mp h⟩
    · rintro ⟨bound, digit⟩
      exact (digitValue?_ascii small bound).mpr digit
  · constructor
    · exact fun h => absurd (digitValue?_bounds h).2 small
    · rintro ⟨bound, digit⟩
      rw [toLower_of_not_ascii (by omega)] at digit
      exact absurd (digit ▸ digitChar_ascii d bound) small

theorem DigitOf.utf8Size (h : DigitOf c d) : c.utf8Size = 1 := by
  have small := (digitValue?_bounds (digitValue?_eq_some.mpr h)).2
  rw [Char.utf8Size_eq_one_iff]
  exact Nat.le_of_lt_succ small

theorem not_digitOf_plus : ¬DigitOf '+' d := by
  rw [← digitValue?_eq_some]
  simp [digitValue?]

theorem eq_plus_of_toLower (h : c.toLower = '+') : c = '+' := by
  by_cases small : c.toNat < 128
  · exact Text.forall_ascii (p := fun c => c.toLower = '+' → c = '+') (by decide +kernel) small h
  · rwa [toLower_of_not_ascii (by omega)] at h

end Characters

theorem mapM_digitValue? : digits.mapM digitValue? = some ds ↔ List.Forall₂ DigitOf digits ds := by
  simp only [Outcome.mapM_eq_some, digitValue?_eq_some]

/-- A digit takes one byte. -/
theorem bytes_of_digits (digit : List.Forall₂ DigitOf digits ds) :
    (String.ofList digits).utf8ByteSize = digits.length := by
  induction digit with
  | nil => rfl
  | cons first _ ih =>
    rw [String.ofList_cons, String.utf8ByteSize_append, String.utf8ByteSize_singleton, ih,
      first.utf8Size, List.length_cons, Nat.add_comm]

theorem lt_of_mem_digits (digit : List.Forall₂ DigitOf digits ds) : ∀ d ∈ ds, d < 16 := by
  induction digit with
  | nil => exact List.forall_mem_nil _
  | cons first _ ih => exact List.forall_mem_cons.mpr ⟨first.1, ih⟩

theorem value_eq_ofDigits (ds : List Nat) : value ds = Nat.ofDigits 16 ds.reverse := by
  rw [Nat.ofDigits_eq_foldr, List.foldr_reverse, value]
  congr 1
  funext n d
  rw [Nat.cast_id]
  ring

/-- Digits that are no more than 32 spell a number of 128 bits. -/
theorem ofDigits_lt (digit : List.Forall₂ DigitOf digits ds) (few : digits.length ≤ 32) :
    Nat.ofDigits 16 ds.reverse < 2 ^ 128 := by
  have small : ∀ d ∈ ds.reverse, d < 16 := fun d mem =>
    lt_of_mem_digits digit d (List.mem_reverse.mp mem)
  have bound := Nat.ofDigits_lt_base_pow_length (by decide) small
  rw [List.length_reverse, ← digit.length_eq] at bound
  calc Nat.ofDigits 16 ds.reverse < 16 ^ digits.length := bound
    _ ≤ 16 ^ 32 := Nat.pow_le_pow_right (by decide) few
    _ = 2 ^ 128 := by decide

theorem unsigned?_eq_some : unsigned? digits = some n ↔ digits ≠ [] ∧
    (∃ ds, List.Forall₂ DigitOf digits ds ∧ n = Nat.ofDigits 16 ds.reverse) ∧ n < 2 ^ 128 := by
  rw [unsigned?]
  split
  · simp_all
  · next other =>
    simp only [Option.filter_eq_some_iff, Option.map_eq_some_iff, mapM_digitValue?,
      value_eq_ofDigits, decide_eq_true_eq, eq_comm (b := n), Nat.one_shiftLeft]
    exact ⟨fun h => ⟨other, h⟩, fun h => h.2⟩

theorem number?_eq_some : number? cs = some n ↔
    ∃ sign digits, (sign = [] ∨ sign = ['+']) ∧ cs = sign ++ digits ∧
      unsigned? digits = some n := by
  constructor
  · intro h
    unfold number? at h
    split at h
    · next digits => exact ⟨['+'], digits, .inr rfl, rfl, h⟩
    · exact ⟨[], cs, .inl rfl, rfl, h⟩
  · rintro ⟨sign, digits, rfl | rfl, rfl, h⟩
    · -- digits of their own do not begin with a plus
      obtain ⟨-, ⟨ds, digit, -⟩, -⟩ := unsigned?_eq_some.mp h
      unfold number?
      split
      · cases digit with
        | cons first => exact absurd first not_digitOf_plus
      · exact h
    · exact h

theorem bytes_of_numeral (h : Numeral cs n) : (String.ofList cs).utf8ByteSize = 32 := by
  obtain ⟨length, sign, digits, ds, plus, rfl, digit, -⟩ := h
  rw [← length, String.ofList_append, String.utf8ByteSize_append, List.length_append,
    bytes_of_digits digit]
  rcases plus with rfl | rfl <;> rfl

theorem Numeral.lt (h : Numeral cs n) : n < 2 ^ 128 := by
  obtain ⟨length, sign, digits, ds, -, rfl, digit, rfl⟩ := h
  rw [List.length_append] at length
  exact ofDigits_lt digit (by omega)

/-- A text is read as the number that it spells. -/
theorem parse?_eq_some : parse? text = some u ↔ Numeral (bare text) u.toNat := by
  constructor
  · intro h
    unfold parse? at h
    split at h
    · next bytes =>
      obtain ⟨n, read, rfl⟩ := Option.map_eq_some_iff.mp h
      obtain ⟨sign, digits, plus, eq, spelled⟩ := number?_eq_some.mp read
      obtain ⟨-, ⟨ds, digit, value⟩, small⟩ := unsigned?_eq_some.mp spelled
      rw [BitVec.toNat_ofNat, Nat.mod_eq_of_lt small]
      refine ⟨?_, sign, digits, ds, plus, eq, digit, value⟩
      rw [eq, String.ofList_append, String.utf8ByteSize_append, bytes_of_digits digit] at bytes
      rw [eq, List.length_append, ← bytes]
      rcases plus with rfl | rfl <;> rfl
    · cases h
  · intro numeral
    have bytes := bytes_of_numeral numeral
    obtain ⟨length, sign, digits, ds, plus, eq, digit, value⟩ := numeral
    have long : 31 ≤ digits.length ∧ digits.length ≤ 32 := by
      rw [eq, List.length_append] at length
      rcases plus with rfl | rfl <;> simp at length <;> omega
    have some : digits ≠ [] := by
      rintro rfl
      exact absurd long.1 (by decide)
    have read : number? (bare text) = Option.some u.toNat :=
      number?_eq_some.mpr ⟨sign, digits, plus, eq,
        unsigned?_eq_some.mpr ⟨some, ⟨ds, digit, value⟩, u.isLt⟩⟩
    rw [parse?, if_pos bytes, read, Option.map_some, BitVec.ofNat_toNat, BitVec.setWidth_eq]

/-- Characters that differ in their case only spell the same. -/
theorem Numeral.recase (h : Numeral cs n) (same : cs'.map Char.toLower = cs.map Char.toLower) :
    Numeral cs' n := by
  obtain ⟨length, sign, digits, ds, plus, rfl, digit, value⟩ := h
  have length' := congrArg List.length same
  rw [List.length_map, List.length_map, length] at length'
  rw [List.map_append, List.map_eq_append_iff] at same
  obtain ⟨sign', digits', rfl, signs, same⟩ := same
  refine ⟨length', sign', digits', ds, ?_, rfl, ?_, value⟩
  · rcases plus with rfl | rfl
    · exact .inl (List.map_eq_nil_iff.mp signs)
    · obtain ⟨c, rfl, lower⟩ := List.map_eq_singleton_iff.mp signs
      rw [eq_plus_of_toLower lower]
      exact .inr rfl
  · have lower (cs : List Char) : List.Forall₂ DigitOf cs ds ↔
        List.Forall₂ (fun c d => d < 16 ∧ c = d.digitChar) (cs.map Char.toLower) ds := by
      rw [List.forall₂_map_left_iff]
      rfl
    rw [lower] at digit ⊢
    rwa [same]

theorem Numeral.of_hexadecimal (h : Hexadecimal cs n) : Numeral cs n := by
  obtain ⟨length, ds, digit, value⟩ := h
  exact ⟨length, [], cs, ds, .inl rfl, rfl, digit, value⟩

theorem Numeral.hexadecimal (h : Numeral cs n) (unsigned : cs.head? ≠ some '+') :
    Hexadecimal cs n := by
  obtain ⟨length, sign, digits, ds, rfl | rfl, rfl, digit, value⟩ := h
  · exact ⟨length, ds, digit, value⟩
  · exact absurd rfl unsigned

theorem Hexadecimal.unsigned (h : Hexadecimal cs n) : cs.head? ≠ some '+' := by
  obtain ⟨-, ds, digit, -⟩ := h
  cases digit with
  | nil => exact (Option.some_ne_none _).symm
  | cons first _ =>
    rintro ⟨⟩
    exact not_digitOf_plus first

theorem exists_parse? : (∃ u, parse? text = some u) ↔ ∃ n, Numeral (bare text) n := by
  constructor
  · rintro ⟨u, read⟩
    exact ⟨_, parse?_eq_some.mp read⟩
  · rintro ⟨n, numeral⟩
    refine ⟨BitVec.ofNat 128 n, parse?_eq_some.mpr ?_⟩
    rwa [BitVec.toNat_ofNat, Nat.mod_eq_of_lt numeral.lt]

/-- A text is read just when its characters besides hyphens spell a number, and it is read as that
number; texts are read the same that differ in hyphens and in the case of letters only. The texts
that are read are those of 32 hexadecimal digits, except that 31 of them may follow a plus. -/
theorem parse?_exact (text : String) :
    ((((∃ u, parse? text = some u) ↔ ∃ n, Hexadecimal (bare text) n) ∧
        ∀ u, parse? text = some u ↔ Hexadecimal (bare text) u.toNat) ↔
      ¬((∃ n, Numeral (bare text) n) ∧ (bare text).head? = some '+')) ∧
      ((∃ u, parse? text = some u) ↔ ∃ n, Numeral (bare text) n) ∧
      (∀ u, parse? text = some u ↔ Numeral (bare text) u.toNat) ∧
      ∀ text', (bare text').map Char.toLower = (bare text).map Char.toLower →
        parse? text' = parse? text := by
  refine ⟨⟨?_, ?_⟩, exists_parse?, fun u => parse?_eq_some, fun text' same => ?_⟩
  · rintro ⟨accepted, -⟩ ⟨numeral, plus⟩
    obtain ⟨n, digits⟩ := accepted.mp (exists_parse?.mpr numeral)
    exact digits.unsigned plus
  · intro unsigned
    have hexadecimal (n : Nat) : Numeral (bare text) n ↔ Hexadecimal (bare text) n :=
      ⟨fun numeral => numeral.hexadecimal fun plus => unsigned ⟨⟨n, numeral⟩, plus⟩,
        Numeral.of_hexadecimal⟩
    exact ⟨exists_parse?.trans (exists_congr hexadecimal),
      fun u => parse?_eq_some.trans (hexadecimal u.toNat)⟩
  · ext u
    simp only [parse?_eq_some]
    exact ⟨fun numeral => numeral.recase same.symm, fun numeral => numeral.recase same⟩

/-- One identifier with hyphens in their places and with others, in both cases. -/
theorem parse?_exact_recased :
    (bare "8d1a5c4e-0000-4000-8000-00000000000b").map Char.toLower =
        (bare "-8D1A5C4E00004000-800000000000000B--").map Char.toLower ∧
      parse? "8d1a5c4e-0000-4000-8000-00000000000b" =
        parse? "-8D1A5C4E00004000-800000000000000B--" ∧
      parse? "-8D1A5C4E00004000-800000000000000B--" = some 0x8D1A5C4E00004000800000000000000B#128 ∧
      Hexadecimal (bare "-8D1A5C4E00004000-800000000000000B--")
        0x8D1A5C4E00004000800000000000000B := by
  obtain ⟨meets, -, -, recased⟩ := parse?_exact "-8D1A5C4E00004000-800000000000000B--"
  have same : (bare "8d1a5c4e-0000-4000-8000-00000000000b").map Char.toLower =
      (bare "-8D1A5C4E00004000-800000000000000B--").map Char.toLower := by decide
  have read : parse? "-8D1A5C4E00004000-800000000000000B--" =
      some 0x8D1A5C4E00004000800000000000000B#128 := by decide
  have unsigned : (bare "-8D1A5C4E00004000-800000000000000B--").head? ≠ some '+' := by decide
  obtain ⟨-, exact⟩ := meets.mpr fun signed => unsigned signed.2
  exact ⟨same, recased _ same, read, (exact _).mp read⟩

/-- The digits are not all that is read: a plus may stand for the first. -/
theorem parse?_plus : ¬∀ text u, parse? text = some u ↔ Hexadecimal (bare text) u.toNat := by
  intro plain
  have read : parse? "+0000000-0000-0000-0000-000000000001" = some 1#128 := by decide
  have plus : (bare "+0000000-0000-0000-0000-000000000001").head? = some '+' := by decide
  exact ((plain _ _).mp read).unsigned plus

end TypedArchive.Archive.Uuid
