import Mathlib.Data.List.Basic

/-! Numbers written in decimal digits. They tell numbers apart, by themselves and at the end of a
text. -/

namespace TypedArchive.Text

/-- What is written is read back, digit by digit. -/
theorem toString_injective : Function.Injective fun n : Nat => toString n := by
  intro m n eq
  have digits : Nat.toDigits 10 m = Nat.toDigits 10 n := by
    simpa only [Nat.toString_eq_repr, Nat.toList_repr] using congrArg String.toList eq
  simpa only [Nat.ofDigitChars_ten_toDigits] using
    congrArg (fun ds => Nat.ofDigitChars 10 ds 0) digits

theorem append_toString_injective (base : String) :
    Function.Injective fun n : Nat => base ++ toString n :=
  fun _ _ eq => toString_injective ((String.append_right_inj base).mp eq)

theorem toList_toString_ne_nil (n : Nat) : (toString n).toList ≠ [] :=
  fun eq => Nat.repr_ne_empty (String.toList_inj.mp eq)

theorem append_toString_ne (base : String) (n : Nat) : base ++ toString n ≠ base := by
  intro eq
  refine toList_toString_ne_nil n ?_
  simpa only [String.toList_append, List.append_right_eq_self] using congrArg String.toList eq

theorem isDigit_of_mem_toString {k : Nat} {c : Char} (mem : c ∈ (toString k).toList) :
    c.isDigit = true := by
  rw [Nat.toString_eq_repr, Nat.toList_repr] at mem
  exact Nat.isDigit_of_mem_toDigits (by decide) (by decide) mem

/-- The last character of a numbered text is a digit. -/
theorem isDigit_of_getLast? {s : String} {k : Nat} {c : Char}
    (last : c ∈ (s ++ toString k).toList.getLast?) : c.isDigit = true := by
  rw [String.toList_append, List.getLast?_append_of_ne_nil _ (toList_toString_ne_nil k)] at last
  exact isDigit_of_mem_toString (List.mem_of_getLast? last)

end TypedArchive.Text
