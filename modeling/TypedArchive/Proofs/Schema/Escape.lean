import Mathlib.Data.List.Induction
import TypedArchive.Schema.Pointer

/-! The escapes in the segments of pointers. A text is escaped character by character, although it is
gone through twice, and in the same way the escapes are undone. So the texts that come from escaping
are just those that can be undone and escaped again: they have no slash, and each tilde in them starts
an escape. -/

namespace TypedArchive

namespace Text

variable {pattern replacement s rest : List Char} {c p q : Char}

theorem replaceFrom_append (s rest : List Char) :
    replaceFrom pattern replacement s.length (s ++ rest) =
      replaceFrom pattern replacement 0 rest := by
  induction s with
  | nil => rfl
  | cons c s ih => exact ih

/-- An occurrence is replaced, and the search goes on behind it. -/
theorem replaceFrom_pattern (p : Char) (pattern rest : List Char) :
    replaceFrom (p :: pattern) replacement 0 (p :: (pattern ++ rest)) =
      replacement ++ replaceFrom (p :: pattern) replacement 0 rest := by
  have occurs : (p :: pattern).isPrefixOf (p :: (pattern ++ rest)) = true := by
    rw [List.isPrefixOf_iff_prefix]
    exact List.prefix_append (p :: pattern) rest
  rw [replaceFrom, if_pos occurs, List.length_cons, Nat.add_sub_cancel, replaceFrom_append]

/-- A character that starts no occurrence is kept. -/
theorem replaceFrom_cons (absent : ¬pattern <+: c :: rest) :
    replaceFrom pattern replacement 0 (c :: rest) =
      c :: replaceFrom pattern replacement 0 rest := by
  rw [← List.isPrefixOf_iff_prefix] at absent
  rw [replaceFrom, if_neg absent]

theorem replaceFrom_cons_of_ne (other : c ≠ p) :
    replaceFrom (p :: pattern) replacement 0 (c :: rest) =
      c :: replaceFrom (p :: pattern) replacement 0 rest := by
  apply replaceFrom_cons
  rw [List.cons_prefix_cons]
  exact fun starts => other starts.1.symm

/-- Replacing one character is done character by character. -/
theorem replaceFrom_singleton (p : Char) (replacement s : List Char) :
    replaceFrom [p] replacement 0 s = s.flatMap fun c => if c = p then replacement else [c] := by
  induction s with
  | nil => rfl
  | cons c s ih =>
    rw [List.flatMap_cons, ← ih]
    by_cases same : c = p
    · subst same
      rw [if_pos rfl]
      exact replaceFrom_pattern c [] s
    · rw [if_neg same, replaceFrom_cons_of_ne same]
      rfl

end Text

namespace Pointer

open Text

def escapeChar (c : Char) : List Char :=
  if c = '~' then ['~', '0'] else if c = '/' then ['~', '1'] else [c]

/-- The second pass changes nothing of what the first one puts in. -/
theorem toList_escape (s : String) : (escape s).toList = s.toList.flatMap escapeChar := by
  simp only [escape, replace, String.toList_ofList]
  have patterns : "~".toList = ['~'] ∧ "/".toList = ['/'] := by decide
  rw [patterns.1, patterns.2, replaceFrom_singleton, replaceFrom_singleton, List.flatMap_assoc]
  congr 1
  funext c
  by_cases tilde : c = '~'
  · subst tilde
    decide
  · simp [escapeChar, tilde]

def escapeTilde (c : Char) : List Char := if c = '~' then ['~', '0'] else [c]

/-- The pass that restores slashes takes no escaped tilde for the start of an escaped slash. -/
theorem replaceFrom_slashes (s : List Char) :
    replaceFrom ['~', '1'] ['/'] 0 (s.flatMap escapeChar) = s.flatMap escapeTilde := by
  induction s with
  | nil => rfl
  | cons c s ih =>
    rw [List.flatMap_cons, List.flatMap_cons, ← ih, escapeChar, escapeTilde]
    generalize s.flatMap escapeChar = rest
    by_cases tilde : c = '~'
    · have absent : ¬['~', '1'] <+: '~' :: '0' :: rest := by simp [List.cons_prefix_cons]
      rw [if_pos tilde, if_pos tilde]
      apply (replaceFrom_cons absent).trans
      rw [replaceFrom_cons_of_ne (by decide)]
      rfl
    · rw [if_neg tilde, if_neg tilde]
      by_cases slash : c = '/'
      · rw [if_pos slash, slash]
        exact replaceFrom_pattern '~' ['1'] rest
      · rw [if_neg slash]
        exact replaceFrom_cons_of_ne tilde

theorem replaceFrom_tildes (s : List Char) :
    replaceFrom ['~', '0'] ['~'] 0 (s.flatMap escapeTilde) = s := by
  induction s with
  | nil => rfl
  | cons c s ih =>
    rw [List.flatMap_cons, escapeTilde]
    by_cases tilde : c = '~'
    · rw [if_pos tilde, tilde]
      apply (replaceFrom_pattern '~' ['0'] _).trans
      rw [ih]
      rfl
    · rw [if_neg tilde]
      exact (replaceFrom_cons_of_ne tilde).trans (congrArg (c :: ·) ih)

theorem unescape_escape (s : String) : unescape (escape s) = s := by
  have patterns : "~1".toList = ['~', '1'] ∧ "~0".toList = ['~', '0'] ∧ "/".toList = ['/'] ∧
      "~".toList = ['~'] := by decide
  obtain ⟨slash, tilde, slashed, tilded⟩ := patterns
  simp only [unescape, replace, String.toList_ofList, slash, tilde, slashed, tilded]
  rw [toList_escape, replaceFrom_slashes, replaceFrom_tildes, String.ofList_toList]

theorem escape_injective : Function.Injective escape :=
  Function.LeftInverse.injective unescape_escape

/-- The characters of an escaped segment: no slash, and after each tilde a zero or a one. -/
structure Escaped (t : List Char) : Prop where
  slash : '/' ∉ t
  tilde : ∀ i, t[i]? = some '~' → t[i + 1]? = some '0' ∨ t[i + 1]? = some '1'

theorem Escaped.tail {c : Char} {t : List Char} (h : Escaped (c :: t)) : Escaped t :=
  ⟨List.not_mem_of_not_mem_cons h.slash, fun i found => h.tilde (i + 1) found⟩

theorem Escaped.escapeChar_append (c : Char) {t : List Char} (h : Escaped t) :
    Escaped (escapeChar c ++ t) := by
  obtain ⟨slash, tilde⟩ := h
  unfold escapeChar
  split
  · refine ⟨by simp [slash], fun i found => ?_⟩
    match i with
    | 0 => exact .inl rfl
    | i + 2 => exact tilde i found
  · split
    · refine ⟨by simp [slash], fun i found => ?_⟩
      match i with
      | 0 => exact .inr rfl
      | i + 2 => exact tilde i found
    · next noTilde noSlash =>
      refine ⟨?_, fun i found => ?_⟩
      · rw [List.singleton_append, List.mem_cons, not_or]
        exact ⟨fun eq => noSlash eq.symm, slash⟩
      · match i with
        | 0 => exact absurd (Option.some.inj found) noTilde
        | i + 1 => exact tilde i found

theorem escaped_escape (s : String) : Escaped (escape s).toList := by
  rw [toList_escape]
  induction s.toList with
  | nil => exact ⟨List.not_mem_nil, nofun⟩
  | cons c cs ih => exact ih.escapeChar_append c

theorem slash_not_mem_escape (s : String) : '/' ∉ (escape s).toList := (escaped_escape s).slash

/-- The induction takes the two characters of an escape at once. -/
theorem Escaped.exists_flatMap {t : List Char} (h : Escaped t) :
    ∃ s : List Char, t = s.flatMap escapeChar := by
  induction t using List.twoStepInduction with
  | nil => exact ⟨[], rfl⟩
  | singleton c =>
    have noTilde : c ≠ '~' := by
      rintro rfl
      simpa using h.tilde 0 rfl
    have noSlash : c ≠ '/' := fun eq => h.slash (eq ▸ List.mem_cons_self)
    exact ⟨[c], by simp [escapeChar, noTilde, noSlash]⟩
  | cons_cons c d t both one =>
    by_cases tilde : c = '~'
    · subst tilde
      obtain ⟨s, rfl⟩ := both h.tail.tail
      rcases h.tilde 0 rfl with zero | one
      · obtain rfl : d = '0' := Option.some.inj zero
        exact ⟨'~' :: s, rfl⟩
      · obtain rfl : d = '1' := Option.some.inj one
        exact ⟨'/' :: s, rfl⟩
    · have noSlash : c ≠ '/' := fun eq => h.slash (eq ▸ List.mem_cons_self)
      obtain ⟨s, eq⟩ := one d h.tail
      exact ⟨c :: s, by simp [List.flatMap_cons, ← eq, escapeChar, tilde, noSlash]⟩

theorem Escaped.exists_escape {t : String} (h : Escaped t.toList) : ∃ s, escape s = t := by
  obtain ⟨s, eq⟩ := h.exists_flatMap
  refine ⟨String.ofList s, String.toList_inj.mp ?_⟩
  rw [toList_escape, String.toList_ofList, eq]

/-- Each text is found again behind its escapes, which hold no slash and differ for different texts.
Unescaping is undone by escaping just where there is no slash and each tilde starts an escape. -/
theorem escape_exact :
    (∀ s, unescape (escape s) = s ∧ '/' ∉ (escape s).toList) ∧ Function.Injective escape ∧
      ∀ t, escape (unescape t) = t ↔ Escaped t.toList := by
  refine ⟨fun s => ⟨unescape_escape s, slash_not_mem_escape s⟩, escape_injective, fun t => ?_⟩
  constructor
  · intro back
    rw [← back]
    exact escaped_escape _
  · intro escaped
    obtain ⟨s, rfl⟩ := escaped.exists_escape
    rw [unescape_escape]

/-- A tilde before digits, and tildes in a row. -/
example : escape "~1/~~0" = "~01~1~0~00" ∧ unescape "~01~1~0~00" = "~1/~~0" := by decide

end Pointer

end TypedArchive
