import TypedArchive.Proofs.Outcome
import TypedArchive.Text.Casing

/-! What words are made of, in any case: of letters and digits only, so the underscores in a
spelling are the ones that join two words. -/

namespace TypedArchive.Text

/-- A letter or digit, as far as ASCII can say. -/
def Wordlike (c : Char) : Prop := c.toNat < 128 → c.isAlphanum = true

instance (c : Char) : Decidable (Wordlike c) := inferInstanceAs (Decidable (_ → _))

theorem Wordlike.ne_underscore {c : Char} (h : Wordlike c) : c ≠ '_' := by
  rintro rfl
  revert h
  decide

theorem wordlike_of_isAlphanumeric {c : Char} (h : isAlphanumeric c = true) : Wordlike c := by
  intro ascii
  rwa [isAlphanumeric, if_pos ascii] at h

/-- A fact about ASCII characters, checked at each. -/
theorem forall_ascii {p : Char → Prop} (h : ∀ n < 128, p (Char.ofNat n)) {c : Char}
    (ascii : c.toNat < 128) : p c :=
  Char.ofNat_toNat c ▸ h c.toNat ascii

/-- A run of a case table leads from characters to characters, and into ASCII only when it has a
single character and that goes to a letter. -/
def Carries : Nat × Nat × Nat × Nat → Prop
  | (first, last, _, target) =>
    (128 ≤ target ∧ target + (last - first) < 0xD800) ∨
      (0xE000 ≤ target ∧ target + (last - first) < 0x110000) ∨
      (last = first ∧ Wordlike (Char.ofNat target))

instance (move : Nat × Nat × Nat × Nat) : Decidable (Carries move) :=
  inferInstanceAs (Decidable (_ ∨ _))

theorem wordlike_ofNat {n : Nat} (beyond : 128 ≤ n) (valid : n.isValidChar) :
    Wordlike (Char.ofNat n) := by
  intro ascii
  rw [Char.ofNat, dif_pos valid] at ascii
  exact absurd ascii (Nat.not_lt.mpr beyond)

theorem Carries.wordlike {first last step target n : Nat}
    (h : Carries (first, last, step, target)) (le : first ≤ n) (le' : n ≤ last) :
    Wordlike (Char.ofNat (target + (n - first))) := by
  rcases h with ⟨low, high⟩ | ⟨low, high⟩ | ⟨rfl, single⟩
  · exact wordlike_ofNat (by omega) (.inl (by omega))
  · exact wordlike_ofNat (by omega) (.inr ⟨by omega, by omega⟩)
  · obtain rfl := Nat.le_antisymm le le'
    rwa [Nat.sub_self, Nat.add_zero]

theorem wordlike_of_mem_caseForm {moves : List (Nat × Nat × Nat × Nat)}
    {specials : List (Nat × List Nat)} (carries : ∀ move ∈ moves, Carries move)
    (longer : ∀ p ∈ specials, ∀ n ∈ p.2, Wordlike (Char.ofNat n)) {c d : Char} (h : Wordlike c)
    (mem : d ∈ caseForm moves specials c) : Wordlike d := by
  rw [caseForm] at mem
  split at mem
  · next form found =>
    obtain ⟨n, inside, rfl⟩ := List.mem_map.mp mem
    exact longer _ (Outcome.mem_of_lookup found) n inside
  · split at mem
    · next first last step target found =>
      have inside := List.find?_some found
      simp only [Bool.and_eq_true, decide_eq_true_eq] at inside
      rw [List.mem_singleton.mp mem]
      exact (carries _ (List.mem_of_find?_eq_some found)).wordlike inside.1.1 inside.1.2
    · rwa [List.mem_singleton.mp mem]

theorem wordlike_of_mem_uppercase {c d : Char} (h : Wordlike c) (mem : d ∈ uppercase c) :
    Wordlike d := by
  rw [uppercase] at mem
  split at mem
  · next ascii =>
    rw [List.mem_singleton.mp mem]
    exact forall_ascii (p := fun c => Wordlike c → Wordlike c.toUpper) (by decide +kernel) ascii h
  · exact wordlike_of_mem_caseForm (by decide +kernel) (by decide +kernel) h mem

theorem wordlike_of_mem_lowercase {c d : Char} (h : Wordlike c) (mem : d ∈ lowercase c) :
    Wordlike d := by
  rw [lowercase] at mem
  split at mem
  · next ascii =>
    rw [List.mem_singleton.mp mem]
    exact forall_ascii (p := fun c => Wordlike c → Wordlike c.toLower) (by decide +kernel) ascii h
  · exact wordlike_of_mem_caseForm (by decide +kernel) (by decide +kernel) h mem

theorem lowercase_ne_nil (c : Char) : lowercase c ≠ [] := by
  rw [lowercase]
  split
  · exact List.cons_ne_nil _ _
  · rw [caseForm]
    split
    · next form found =>
      have longer : ∀ p ∈ lowercaseSpecials, p.2 ≠ [] := by decide
      exact mt List.map_eq_nil_iff.mp (longer _ (Outcome.mem_of_lookup found))
    · split <;> exact List.cons_ne_nil _ _

/-- A cut run is made of its own characters. -/
theorem mem_of_mem_splitRun {mode : WordCase} {word cs w : List Char}
    (mem : w ∈ splitRun mode word cs) {c : Char} (inside : c ∈ w) : c ∈ word ∨ c ∈ cs := by
  fun_induction splitRun mode word cs with
  | case1 => exact absurd mem List.not_mem_nil
  | case2 mode word last =>
    rw [List.mem_singleton.mp mem] at inside
    simpa [or_comm] using inside
  | case3 mode word first next rest following ends ih => grind
  | case4 mode word first next rest following inner ends ih => grind
  | case5 mode word first next rest following inner inner' ih => grind

/-- No word is empty: in the upper-case mode there is a letter in the current word. -/
theorem ne_nil_of_mem_splitRun {mode : WordCase} {word cs w : List Char}
    (begun : mode = .upper → word ≠ []) (mem : w ∈ splitRun mode word cs) : w ≠ [] := by
  fun_induction splitRun mode word cs with
  | case1 => exact absurd mem List.not_mem_nil
  | case2 mode word last => simp [List.mem_singleton.mp mem]
  | case3 mode word first next rest following ends ih =>
    rcases List.mem_cons.mp mem with rfl | mem
    · simp
    · exact ih (by simp) mem
  | case4 mode word first next rest following inner ends ih =>
    rcases List.mem_cons.mp mem with rfl | mem
    · simpa using begun ends.1
    · exact ih (by simp) mem
  | case5 mode word first next rest following inner inner' ih => exact ih (by simp) mem

theorem isAlphanumeric_of_mem_runs {run cs w : List Char}
    (begun : ∀ c ∈ run, isAlphanumeric c = true) (mem : w ∈ alphanumericRuns run cs) {c : Char}
    (inside : c ∈ w) : isAlphanumeric c = true := by
  induction cs generalizing run with
  | nil =>
    rw [alphanumericRuns] at mem
    grind
  | cons first rest ih =>
    rw [alphanumericRuns] at mem
    grind

theorem wordlike_of_mem_words {s : String} {w : List Char} (mem : w ∈ words s) {c : Char}
    (inside : c ∈ w) : Wordlike c := by
  obtain ⟨run, listed, cut⟩ := List.mem_flatMap.mp mem
  rcases mem_of_mem_splitRun cut inside with inside | inside
  · exact absurd inside List.not_mem_nil
  · exact wordlike_of_isAlphanumeric (isAlphanumeric_of_mem_runs (by simp) listed inside)

theorem ne_nil_of_mem_words {s : String} {w : List Char} (mem : w ∈ words s) : w ≠ [] := by
  obtain ⟨run, -, cut⟩ := List.mem_flatMap.mp mem
  exact ne_nil_of_mem_splitRun (by simp) cut

theorem wordlike_of_mem_lowercaseWord {w : List Char} (h : ∀ c ∈ w, Wordlike c) {d : Char}
    (mem : d ∈ lowercaseWord w) : Wordlike d := by
  induction w using lowercaseWord.induct with
  | case1 => simp [lowercaseWord] at mem
  | case2 =>
    rw [lowercaseWord, List.mem_singleton] at mem
    subst mem
    decide
  | case3 c rest other ih =>
    rw [lowercaseWord.eq_3 _ _ other, List.mem_append] at mem
    rw [List.forall_mem_cons] at h
    rcases mem with mem | mem
    · exact wordlike_of_mem_lowercase h.1 mem
    · exact ih h.2 mem

theorem lowercaseWord_ne_nil {w : List Char} (h : w ≠ []) : lowercaseWord w ≠ [] := by
  rw [lowercaseWord.eq_def]
  split
  · exact absurd rfl h
  · exact List.cons_ne_nil _ _
  · exact List.append_ne_nil_of_left_ne_nil (lowercase_ne_nil _) _

theorem wordlike_of_mem_capitalizeWord {w : List Char} (h : ∀ c ∈ w, Wordlike c) {d : Char}
    (mem : d ∈ capitalizeWord w) : Wordlike d := by
  cases w with
  | nil => simp [capitalizeWord] at mem
  | cons c rest =>
    rw [capitalizeWord, List.mem_append] at mem
    rw [List.forall_mem_cons] at h
    rcases mem with mem | mem
    · exact wordlike_of_mem_uppercase h.1 mem
    · exact wordlike_of_mem_lowercaseWord h.2 mem

theorem wordlike_of_mem_pascalCase {s : String} {c : Char} (mem : c ∈ (pascalCase s).toList) :
    Wordlike c := by
  rw [pascalCase, String.toList_ofList] at mem
  obtain ⟨w, listed, inside⟩ := List.mem_flatMap.mp mem
  exact wordlike_of_mem_capitalizeWord (fun _ => wordlike_of_mem_words listed) inside

section Joined

variable {ws : List (List Char)} (words : ∀ w ∈ ws, w ≠ [] ∧ ∀ c ∈ w, Wordlike c)

include words

theorem wordlike_of_mem_joined {c : Char} (mem : c ∈ ['_'].intercalate ws) :
    Wordlike c ∨ c = '_' := by
  induction ws with
  | nil => exact absurd mem List.not_mem_nil
  | cons w ws ih =>
    rw [List.forall_mem_cons] at words
    cases ws with
    | nil => exact .inl (words.1.2 c (by simpa using mem))
    | cons next ws =>
      rw [List.intercalate_cons_cons, List.append_assoc, List.mem_append, List.mem_append,
        List.mem_singleton] at mem
      rcases mem with mem | mem | mem
      · exact .inl (words.1.2 c mem)
      · exact .inr mem
      · exact ih words.2 mem

theorem head?_joined {w : List Char} :
    w ∈ ws.head? → (['_'].intercalate ws).head? = w.head? := by
  intro first
  cases ws with
  | nil => cases first
  | cons w ws =>
    cases first
    cases ws with
    | nil => simp
    | cons next ws =>
      rw [List.intercalate_cons_cons, List.append_assoc,
        List.head?_append_of_ne_nil _ (words w List.mem_cons_self).1]

theorem getLast?_joined {w : List Char} :
    w ∈ ws.getLast? → (['_'].intercalate ws).getLast? = w.getLast? := by
  intro last
  induction ws with
  | nil => cases last
  | cons first ws ih =>
    rw [List.forall_mem_cons] at words
    cases ws with
    | nil =>
      cases last
      simp
    | cons next ws =>
      have joined := ih words.2 last
      rw [List.intercalate_cons_cons, List.append_assoc, List.getLast?_append, List.getLast?_append,
        joined, List.getLast?_eq_some_getLast (words.2 w (List.mem_of_getLast? last)).1]
      rfl

end Joined

theorem mem_lowercased {s : String} {w : List Char} (mem : w ∈ (words s).map lowercaseWord) :
    w ≠ [] ∧ ∀ c ∈ w, Wordlike c := by
  obtain ⟨w, listed, rfl⟩ := List.mem_map.mp mem
  exact ⟨lowercaseWord_ne_nil (ne_nil_of_mem_words listed),
    fun _ => wordlike_of_mem_lowercaseWord fun _ => wordlike_of_mem_words listed⟩

theorem wordlike_of_mem_snakeCase {s : String} {c : Char} (mem : c ∈ (snakeCase s).toList) :
    Wordlike c ∨ c = '_' := by
  rw [snakeCase, String.toList_ofList] at mem
  exact wordlike_of_mem_joined (fun _ => mem_lowercased) mem

theorem wordlike_of_head?_snakeCase {s : String} {c : Char}
    (first : c ∈ (snakeCase s).toList.head?) : Wordlike c := by
  rw [snakeCase, String.toList_ofList] at first
  cases eq : ((words s).map lowercaseWord).head? with
  | none =>
    rw [List.head?_eq_none_iff.mp eq] at first
    cases first
  | some w =>
    rw [head?_joined (fun _ => mem_lowercased) eq] at first
    exact (mem_lowercased (List.mem_of_head? eq)).2 c (List.mem_of_head? first)

theorem wordlike_of_getLast?_snakeCase {s : String} {c : Char}
    (last : c ∈ (snakeCase s).toList.getLast?) : Wordlike c := by
  rw [snakeCase, String.toList_ofList] at last
  cases eq : ((words s).map lowercaseWord).getLast? with
  | none =>
    rw [List.getLast?_eq_none_iff.mp eq] at last
    cases last
  | some w =>
    rw [getLast?_joined (fun _ => mem_lowercased) eq] at last
    exact (mem_lowercased (List.mem_of_getLast? eq)).2 c (List.mem_of_getLast? last)

end TypedArchive.Text
