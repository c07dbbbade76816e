import Mathlib.Data.List.Nodup
import TypedArchive.Assoc

/-! Sorted association lists as finite maps: lookups after each operation, and equality of two lists
that look up alike. -/

namespace TypedArchive.Assoc

variable {α β : Type} {m : Assoc α} {key other : String} {value : α}

theorem get?_cons (k : String) (v : α) (rest : Assoc α) (key : String) :
    get? ((k, v) :: rest) key = if key = k then some v else get? rest key := by
  by_cases eq : key = k
  · subst eq
    simp [get?]
  · have ne : (key == k) = false := by simpa using eq
    simp [get?, List.lookup_cons, ne, eq]

theorem get?_mapValues (f : α → β) (m : Assoc α) (key : String) :
    (m.mapValues f).get? key = (m.get? key).map f := by
  induction m with
  | nil => rfl
  | cons p rest ih =>
    rw [mapValues, List.map_cons, get?_cons, get?_cons, ← mapValues, ih]
    split <;> rfl

theorem mem_of_get? (h : m.get? key = some value) : (key, value) ∈ m := by
  induction m with
  | nil => simp at h
  | cons p rest ih =>
    obtain ⟨k, v⟩ := p
    rw [get?_cons] at h
    split at h
    · next eq =>
      cases h
      rw [eq]
      exact List.mem_cons_self
    · exact List.mem_cons_of_mem _ (ih h)

theorem get?_eq_none_iff : m.get? key = none ↔ key ∉ m.keys := by
  induction m with
  | nil => simp [keys]
  | cons p rest ih =>
    obtain ⟨k, v⟩ := p
    rw [get?_cons]
    by_cases eq : key = k
    · simp [eq, keys]
    · simpa [eq, keys] using ih

theorem get?_of_mem (distinct : m.keys.Nodup) (h : (key, value) ∈ m) :
    m.get? key = some value := by
  induction m with
  | nil => simp at h
  | cons p rest ih =>
    obtain ⟨k, v⟩ := p
    have fresh : k ∉ keys rest := (List.nodup_cons.mp distinct).1
    rw [get?_cons]
    rcases List.mem_cons.mp h with eq | mem
    · cases eq
      exact if_pos rfl
    · have ne : key ≠ k := by
        intro eq
        exact fresh (eq ▸ List.mem_map_of_mem (f := Prod.fst) mem)
      rw [if_neg ne]
      exact ih (List.nodup_cons.mp distinct).2 mem

theorem contains_iff_mem_keys : m.contains key = true ↔ key ∈ m.keys := by
  have h : m.get? key = none ↔ key ∉ m.keys := get?_eq_none_iff
  change (m.get? key).isSome = true ↔ _
  cases found : m.get? key with
  | none => simpa using h.mp found
  | some v =>
    have : key ∈ m.keys := by
      by_contra absent
      rw [h.mpr absent] at found
      cases found
    simpa using this

theorem contains_iff_exists : m.contains key = true ↔ ∃ v, m.get? key = some v :=
  Option.isSome_iff_exists

theorem get?_insert (m : Assoc α) (key : String) (value : α) (other : String) :
    (m.insert key value).get? other = if other = key then some value else m.get? other := by
  split
  · next eq => rw [eq, get?_insert_self]
  · next ne => exact get?_insert_of_ne m value ne

theorem mem_keys_insert : other ∈ (m.insert key value).keys ↔ other = key ∨ other ∈ m.keys := by
  rw [← contains_iff_mem_keys, ← contains_iff_mem_keys]
  change ((m.insert key value).get? other).isSome = true ↔ _ ∨ (m.get? other).isSome = true
  rw [get?_insert]
  split <;> simp [*]

theorem mem_insert {p : String × α} (h : p ∈ m.insert key value) : p = (key, value) ∨ p ∈ m := by
  induction m with
  | nil => exact Or.inl (List.mem_singleton.mp h)
  | cons q rest ih =>
    obtain ⟨k, v⟩ := q
    rw [insert] at h
    split at h
    · exact List.mem_cons.mp h
    · split at h
      · exact (List.mem_cons.mp h).imp id (List.mem_cons_of_mem _)
      · rcases List.mem_cons.mp h with eq | mem
        · exact Or.inr (eq ▸ List.mem_cons_self)
        · exact (ih mem).imp id (List.mem_cons_of_mem _)

theorem insert_perm (fresh : key ∉ m.keys) : (m.insert key value).Perm ((key, value) :: m) := by
  induction m with
  | nil => exact List.Perm.refl _
  | cons p rest ih =>
    obtain ⟨k, v⟩ := p
    simp only [keys, List.map_cons, List.mem_cons, not_or] at fresh
    rw [insert]
    split
    · exact List.Perm.refl _
    · rw [if_neg fresh.1]
      exact ((ih fresh.2).cons _).trans (List.Perm.swap _ _ _)

theorem Sorted.keys_ascending (h : m.Sorted) : m.keys.Pairwise (· < ·) := List.pairwise_map.mpr h

theorem Sorted.keys_nodup (h : m.Sorted) : m.keys.Nodup :=
  h.keys_ascending.imp fun lt => String.ne_of_lt lt

theorem Sorted.insert (h : m.Sorted) : (m.insert key value).Sorted := by
  induction m with
  | nil => exact List.pairwise_singleton _ _
  | cons p rest ih =>
    obtain ⟨k, v⟩ := p
    obtain ⟨first, tail⟩ := List.pairwise_cons.mp h
    rw [Assoc.insert]
    split
    · next lt =>
      refine List.pairwise_cons.mpr ⟨fun q mem => ?_, h⟩
      rcases List.mem_cons.mp mem with eq | mem
      · exact eq ▸ lt
      · exact String.lt_trans lt (first q mem)
    · next ge =>
      split
      · next eq => exact List.pairwise_cons.mpr ⟨fun q mem => eq ▸ first q mem, tail⟩
      · next ne =>
        refine List.pairwise_cons.mpr ⟨fun q mem => ?_, ih tail⟩
        rcases mem_insert mem with eq | mem
        · subst eq
          by_contra le
          exact ne (String.le_antisymm (String.not_lt.mp le) (String.not_lt.mp ge))
        · exact first q mem

/-- A value that is replaced stays in its place, unless the key comes to stand twice. -/
theorem insert_split {old new : α} (found : m.get? key = some old)
    (distinct : (m.insert key new).keys.Nodup) :
    ∃ front back, m = front ++ (key, old) :: back ∧
      m.insert key new = front ++ (key, new) :: back := by
  induction m with
  | nil => cases found
  | cons p rest ih =>
    obtain ⟨k, v⟩ := p
    rw [insert] at distinct ⊢
    by_cases lt : key < k
    · have listed : key ∈ keys ((k, v) :: rest) := by
        by_contra absent
        rw [get?_eq_none_iff.mpr absent] at found
        cases found
      rw [if_pos lt] at distinct
      exact absurd listed (List.nodup_cons.mp distinct).1
    · rw [if_neg lt] at distinct ⊢
      rw [get?_cons] at found
      by_cases eq : key = k
      · subst eq
        rw [if_pos rfl] at found ⊢
        cases found
        exact ⟨[], rest, rfl, rfl⟩
      · rw [if_neg eq] at found distinct ⊢
        obtain ⟨front, back, before, after⟩ := ih found (List.nodup_cons.mp distinct).2
        exact ⟨(k, v) :: front, back, by rw [before]; rfl, by rw [after]; rfl⟩

theorem Sorted.filter (p : String × α → Bool) (h : m.Sorted) : Sorted (List.filter p m) :=
  List.Pairwise.filter p h

theorem sorted_nil : Sorted ([] : Assoc α) := List.Pairwise.nil

/-- Two sorted lists that look up alike are equal. -/
theorem Sorted.ext {m n : Assoc α} (hm : m.Sorted) (hn : n.Sorted)
    (h : ∀ key, m.get? key = n.get? key) : m = n := by
  have perm : m.Perm n := by
    refine (List.perm_ext_iff_of_nodup hm.keys_nodup.of_map hn.keys_nodup.of_map).mpr ?_
    intro ⟨key, value⟩
    constructor
    · intro mem
      exact mem_of_get? ((h key).symm.trans (get?_of_mem hm.keys_nodup mem))
    · intro mem
      exact mem_of_get? ((h key).trans (get?_of_mem hn.keys_nodup mem))
  refine perm.eq_of_pairwise ?_ hm hn
  intro a b _ _ ab ba
  exact absurd ba (String.lt_asymm ab)

theorem insert_comm_of_lt {a b : String} (lt : a < b) (m : Assoc α) (x y : α) :
    (m.insert a x).insert b y = (m.insert b y).insert a x := by
  have ge : ¬b < a := String.lt_asymm lt
  have ne : b ≠ a := (String.ne_of_lt lt).symm
  induction m with
  | nil => simp only [insert, if_pos lt, if_neg ge, if_neg ne]
  | cons p rest ih =>
    obtain ⟨k, v⟩ := p
    by_cases first : a < k
    · simp only [insert, if_pos first, if_neg ge, if_neg ne]
      split
      · rw [insert, if_pos lt]
      · split
        · rw [insert, if_pos lt]
        · rw [insert, if_pos first]
    · have later : ¬b < k := fun h => first (String.lt_trans lt h)
      by_cases same : a = k
      · subst same
        simp only [insert, if_neg first, if_neg ge, if_neg ne, if_true]
      · have other : b ≠ k := fun eq => first (eq ▸ lt)
        simp only [insert, if_neg first, if_neg same, if_neg later, if_neg other, ih]

/-- Insertions at different keys commute. -/
theorem insert_comm {a b : String} (ne : a ≠ b) (m : Assoc α) (x y : α) :
    (m.insert a x).insert b y = (m.insert b y).insert a x := by
  by_cases lt : a < b
  · exact insert_comm_of_lt lt m x y
  · have gt : b < a := by
      by_contra le
      exact ne (String.le_antisymm (String.not_lt.mp le) (String.not_lt.mp lt))
    exact (insert_comm_of_lt gt m y x).symm

/-- Keeping the pairs whose key passes a test. -/
theorem get?_filter (test : String → Bool) (m : Assoc α) (key : String) :
    get? (List.filter (fun p => test p.1) m) key = if test key then m.get? key else none := by
  induction m with
  | nil => simp
  | cons p rest ih =>
    obtain ⟨k, v⟩ := p
    by_cases kept : test k = true
    · rw [List.filter_cons_of_pos (by simpa using kept), get?_cons, get?_cons, ih]
      by_cases eq : key = k
      · simp [eq, kept]
      · simp [eq]
    · rw [List.filter_cons_of_neg (by simpa using kept), get?_cons, ih]
      by_cases eq : key = k
      · simp [eq, kept]
      · simp [eq]

theorem get?_erase (m : Assoc α) (key other : String) :
    (m.erase key).get? other = if other = key then none else m.get? other := by
  have filtered := get?_filter (· != key) m other
  simp only [bne_iff_ne, ne_eq, ite_not] at filtered
  exact filtered

theorem keys_erase (m : Assoc α) (key : String) :
    (m.erase key).keys = m.keys.filter (· != key) := by
  rw [erase, keys, keys, List.filter_map]
  rfl

theorem erase_of_not_mem (absent : key ∉ m.keys) : m.erase key = m := by
  refine List.filter_eq_self.mpr fun p mem => bne_iff_ne.mpr ?_
  intro eq
  exact absent (eq ▸ List.mem_map_of_mem mem)

theorem erase_insert (m : Assoc α) (key : String) (value : α) :
    (m.insert key value).erase key = m.erase key := by
  induction m with
  | nil => simp [erase]
  | cons p rest ih =>
    obtain ⟨k, v⟩ := p
    unfold erase at ih ⊢
    rw [insert]
    split
    · rw [List.filter_cons_of_neg (by simp)]
    · split
      · next eq => simp [eq]
      · simp only [List.filter_cons, ih]

theorem insert_insert (m : Assoc α) (key : String) (value value' : α) :
    (m.insert key value).insert key value' = m.insert key value' := by
  have irrefl : ¬key < key := String.lt_irrefl key
  induction m with
  | nil => simp [insert]
  | cons p rest ih =>
    obtain ⟨k, v⟩ := p
    by_cases lt : key < k
    · simp [insert, lt]
    · by_cases eq : key = k
      · simp [insert, eq]
      · simp only [insert, if_neg lt, if_neg eq, ih]

/-- Putting a value where it stands already. -/
theorem Sorted.insert_of_get? (sorted : m.Sorted) (found : m.get? key = some value) :
    m.insert key value = m := by
  refine sorted.insert.ext sorted fun other => ?_
  rw [get?_insert]
  split
  · next eq => rw [eq, found]
  · rfl

/-- Inserts pairs one after the other. -/
def insertAll (m : Assoc α) (pairs : List (String × α)) : Assoc α :=
  pairs.foldl (fun m p => m.insert p.1 p.2) m

@[simp] theorem insertAll_nil (m : Assoc α) : m.insertAll [] = m := rfl

@[simp] theorem insertAll_cons (m : Assoc α) (p : String × α) (pairs : List (String × α)) :
    m.insertAll (p :: pairs) = (m.insert p.1 p.2).insertAll pairs := rfl

theorem ofList_eq_insertAll (pairs : List (String × α)) : ofList pairs = insertAll [] pairs := rfl

theorem Sorted.insertAll (h : m.Sorted) (pairs : List (String × α)) :
    (m.insertAll pairs).Sorted := by
  induction pairs generalizing m with
  | nil => exact h
  | cons p pairs ih => exact ih h.insert

theorem sorted_ofList (pairs : List (String × α)) : (ofList pairs).Sorted :=
  sorted_nil.insertAll pairs

/-- Inserting pairs that all stand in another list. -/
theorem get?_insertAll_of_agree {n : Assoc α} (m : Assoc α) (pairs : List (String × α))
    (agree : ∀ p ∈ pairs, n.get? p.1 = some p.2) (key : String) :
    (m.insertAll pairs).get? key =
      if key ∈ pairs.map Prod.fst then n.get? key else m.get? key := by
  induction pairs generalizing m with
  | nil => simp
  | cons p pairs ih =>
    rw [insertAll_cons, ih _ fun q mem => agree q (List.mem_cons_of_mem _ mem), get?_insert]
    have first := agree p List.mem_cons_self
    simp only [List.map_cons, List.mem_cons]
    by_cases mem : key ∈ pairs.map Prod.fst
    · rw [if_pos mem, if_pos (Or.inr mem)]
    · rw [if_neg mem]
      by_cases eq : key = p.1
      · rw [if_pos eq, if_pos (Or.inl eq), eq, first]
      · rw [if_neg eq, if_neg (not_or.mpr ⟨eq, mem⟩)]

theorem Sorted.insertAll_eq {n : Assoc α} (hm : m.Sorted) (hn : n.Sorted)
    {pairs : List (String × α)} (agree : ∀ p ∈ pairs, n.get? p.1 = some p.2)
    (others : ∀ key, key ∉ pairs.map Prod.fst → m.get? key = n.get? key) :
    m.insertAll pairs = n := by
  refine (hm.insertAll pairs).ext hn fun key => ?_
  rw [get?_insertAll_of_agree m pairs agree]
  split
  · rfl
  · next absent => exact others key absent

theorem get?_insertAll_of_not_mem (m : Assoc α) {pairs : List (String × α)}
    (absent : key ∉ pairs.map Prod.fst) : (m.insertAll pairs).get? key = m.get? key := by
  induction pairs generalizing m with
  | nil => rfl
  | cons p pairs ih =>
    simp only [List.map_cons, List.mem_cons, not_or] at absent
    rw [insertAll_cons, ih _ absent.2, get?_insert, if_neg absent.1]

theorem get?_insertAll_of_mem (m : Assoc α) {pairs : List (String × α)}
    (distinct : (pairs.map Prod.fst).Nodup) (mem : (key, value) ∈ pairs) :
    (m.insertAll pairs).get? key = some value := by
  induction pairs generalizing m with
  | nil => cases mem
  | cons p pairs ih =>
    obtain ⟨fresh, distinct⟩ := List.nodup_cons.mp distinct
    rw [insertAll_cons]
    rcases List.mem_cons.mp mem with eq | mem
    · subst eq
      rw [get?_insertAll_of_not_mem _ fresh, get?_insert_self]
    · exact ih _ distinct mem

theorem mem_insertAll {pairs : List (String × α)} {p : String × α} (h : p ∈ m.insertAll pairs) :
    p ∈ pairs ∨ p ∈ m := by
  induction pairs generalizing m with
  | nil => exact Or.inr h
  | cons q pairs ih =>
    rcases ih h with mem | mem
    · exact Or.inl (List.mem_cons_of_mem q mem)
    · rcases mem_insert mem with rfl | mem
      · exact Or.inl List.mem_cons_self
      · exact Or.inr mem

theorem insertAll_perm (m : Assoc α) {pairs : List (String × α)}
    (distinct : (pairs.map Prod.fst).Nodup) (fresh : ∀ p ∈ pairs, p.1 ∉ m.keys) :
    (m.insertAll pairs).Perm (pairs ++ m) := by
  induction pairs generalizing m with
  | nil => exact List.Perm.refl _
  | cons p pairs ih =>
    obtain ⟨other, distinct⟩ := List.nodup_cons.mp distinct
    rw [List.forall_mem_cons] at fresh
    refine (ih _ distinct fun q mem has => ?_).trans ?_
    · rcases mem_keys_insert.mp has with eq | has
      · exact other (eq ▸ List.mem_map_of_mem mem)
      · exact fresh.2 q mem has
    · exact ((insert_perm fresh.1).append_left pairs).trans List.perm_middle

theorem ofList_perm {pairs : List (String × α)} (distinct : (pairs.map Prod.fst).Nodup) :
    (ofList pairs).Perm pairs := by
  have perm := insertAll_perm [] distinct fun _ _ => List.not_mem_nil
  rwa [List.append_nil] at perm

theorem mem_keys_insertAll (m : Assoc α) (pairs : List (String × α)) :
    key ∈ (m.insertAll pairs).keys ↔ key ∈ pairs.map Prod.fst ∨ key ∈ m.keys := by
  induction pairs generalizing m with
  | nil => simp
  | cons p pairs ih =>
    rw [insertAll_cons, ih, mem_keys_insert, List.map_cons, List.mem_cons]
    tauto

theorem mem_sortedNames {names : List String} {name : String} :
    name ∈ sortedNames names ↔ name ∈ names := by
  rw [sortedNames, ofList_eq_insertAll, mem_keys_insertAll, List.map_map]
  simp [keys]

theorem Sorted.ofList_eq (h : m.Sorted) : ofList m = m := by
  rw [ofList_eq_insertAll]
  refine sorted_nil.insertAll_eq h (fun p mem => get?_of_mem h.keys_nodup mem) fun key absent => ?_
  exact (get?_eq_none_iff.mpr absent).symm

theorem sortedNames_of_ascending {names : List String} (ascending : names.Pairwise (· < ·)) :
    sortedNames names = names := by
  have sorted : Sorted (names.map fun name => (name, ())) := List.pairwise_map.mpr ascending
  unfold sortedNames
  rw [sorted.ofList_eq, keys, List.map_map]
  exact List.map_id' _

/-- Changes the value of a key that is there. -/
def modify (m : Assoc α) (key : String) (f : α → α) : Assoc α :=
  m.map fun p => if p.1 = key then (p.1, f p.2) else p

theorem modify_cons (p : String × α) (rest : Assoc α) (key : String) (f : α → α) :
    modify (p :: rest) key f =
      (p.1, if p.1 = key then f p.2 else p.2) :: modify rest key f := by
  rw [modify, List.map_cons, ← modify]
  split <;> rfl

theorem keys_modify (m : Assoc α) (key : String) (f : α → α) : (m.modify key f).keys = m.keys := by
  rw [keys, modify, List.map_map]
  refine List.map_congr_left fun p _ => ?_
  dsimp only [Function.comp_apply]
  split <;> rfl

theorem Sorted.modify (h : m.Sorted) (f : α → α) : (m.modify key f).Sorted := by
  have ascending := h.keys_ascending
  rw [← keys_modify m key f] at ascending
  exact List.pairwise_map.mp ascending

theorem get?_modify (m : Assoc α) (key : String) (f : α → α) (other : String) :
    (m.modify key f).get? other =
      if other = key then (m.get? other).map f else m.get? other := by
  induction m with
  | nil => simp [modify]
  | cons p rest ih =>
    obtain ⟨k, v⟩ := p
    rw [modify_cons, get?_cons, get?_cons, ih]
    by_cases first : other = k
    · subst first
      by_cases eq : other = key <;> simp [eq]
    · simp [first]

theorem contains_modify (m : Assoc α) (key : String) (f : α → α) (other : String) :
    (m.modify key f).contains other = m.contains other := by
  have h := keys_modify m key f
  rw [Bool.eq_iff_iff, contains_iff_mem_keys, contains_iff_mem_keys, h]

theorem modify_insert (m : Assoc α) (key other : String) (f : α → α) (value : α) :
    (m.insert other value).modify key f =
      (m.modify key f).insert other (if other = key then f value else value) := by
  induction m with
  | nil => exact modify_cons _ _ _ _
  | cons p rest ih =>
    obtain ⟨k, v⟩ := p
    rw [modify_cons, insert, insert]
    split
    · rw [modify_cons, modify_cons]
    · split
      · rw [modify_cons]
      · rw [modify_cons, ih]

theorem modify_insertAll (m : Assoc α) (pairs : List (String × α)) (key : String) (f : α → α) :
    (m.insertAll pairs).modify key f = (m.modify key f).insertAll (modify pairs key f) := by
  induction pairs generalizing m with
  | nil => rfl
  | cons p pairs ih => rw [insertAll_cons, ih, modify_insert, modify_cons, insertAll_cons]

theorem modify_ofList (pairs : List (String × α)) (key : String) (f : α → α) :
    (ofList pairs).modify key f = ofList (modify pairs key f) :=
  modify_insertAll [] pairs key f

/-- A change to a key that is left out is not seen. -/
theorem filter_modify (test : String → Bool) (m : Assoc α) (f : α → α) (out : test key = false) :
    (m.modify key f).filter (fun p => test p.1) = m.filter fun p => test p.1 := by
  induction m with
  | nil => rfl
  | cons p rest ih =>
    rw [modify_cons, List.filter_cons, List.filter_cons, ih]
    by_cases eq : p.1 = key
    · simp [eq, out]
    · simp [eq]

/-- A key that is kept may be set before or after the others are left out. -/
theorem Sorted.filter_insert (test : String → Bool) (h : m.Sorted) (value : α)
    (kept : test key = true) : (m.insert key value).filter (fun p => test p.1) =
      Assoc.insert (m.filter fun p => test p.1) key value := by
  refine (h.insert.filter _).ext (h.filter _).insert fun other => ?_
  rw [get?_filter, get?_insert, get?_insert, get?_filter]
  by_cases eq : other = key
  · simp [eq, kept]
  · simp [eq]

end TypedArchive.Assoc
