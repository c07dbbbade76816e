/-! Association lists with text keys, kept in strictly increasing key order. -/

namespace TypedArchive

/-- A finite map from text: pairs in strictly increasing key order. -/
abbrev Assoc (α : Type) := List (String × α)

namespace Assoc

variable {α β : Type}

/-- The keys stand in strictly increasing order, so each occurs once. -/
def Sorted (m : Assoc α) : Prop := m.Pairwise fun a b => a.1 < b.1

instance (m : Assoc α) : Decidable m.Sorted :=
  inferInstanceAs (Decidable (List.Pairwise _ _))

def keys (m : Assoc α) : List String := m.map Prod.fst

def values (m : Assoc α) : List α := m.map Prod.snd

def get? (m : Assoc α) (key : String) : Option α := m.lookup key

def contains (m : Assoc α) (key : String) : Bool := (m.lookup key).isSome

/-- Puts a pair at its place, replacing the value of an equal key. -/
def insert (m : Assoc α) (key : String) (value : α) : Assoc α :=
  match m with
  | [] => [(key, value)]
  | (k, v) :: rest =>
    if key < k then (key, value) :: (k, v) :: rest
    else if key = k then (key, value) :: rest
    else (k, v) :: insert rest key value

def erase (m : Assoc α) (key : String) : Assoc α :=
  m.filter fun p => p.1 != key

/-- Collects pairs in any order; the last value of a key wins. -/
def ofList (pairs : List (String × α)) : Assoc α :=
  pairs.foldl (fun m p => insert m p.1 p.2) []

/-- Names in increasing order, each once. -/
def sortedNames (names : List String) : List String :=
  (ofList (names.map fun name => (name, ()))).keys

def mapValues (f : α → β) (m : Assoc α) : Assoc β :=
  m.map fun p => (p.1, f p.2)

@[simp] theorem get?_nil (key : String) : get? ([] : Assoc α) key = none := rfl

@[simp] theorem insert_nil (key : String) (value : α) :
    insert [] key value = [(key, value)] := rfl

theorem get?_insert_self (m : Assoc α) (key : String) (value : α) :
    (m.insert key value).get? key = some value := by
  induction m with
  | nil => simp [get?]
  | cons p rest ih =>
    obtain ⟨k, v⟩ := p
    by_cases lt : key < k
    · simp [insert, lt, get?]
    · by_cases eq : key = k
      · simp [insert, eq, get?]
      · have ne : (key == k) = false := by simpa using eq
        simpa [insert, lt, eq, get?, List.lookup_cons, ne] using ih

theorem get?_insert_of_ne (m : Assoc α) {key other : String} (value : α) (h : other ≠ key) :
    (m.insert key value).get? other = m.get? other := by
  have ne : (other == key) = false := by simpa using h
  induction m with
  | nil => simp [get?, List.lookup_cons, ne]
  | cons p rest ih =>
    obtain ⟨k, v⟩ := p
    by_cases lt : key < k
    · simp [insert, lt, get?, List.lookup_cons, ne]
    · by_cases eq : key = k
      · subst eq
        simp [insert, get?, List.lookup_cons, ne]
      · simp only [get?] at ih ⊢
        simp only [insert, if_neg lt, if_neg eq, List.lookup_cons, ih]

theorem get?_erase_self (m : Assoc α) (key : String) : (m.erase key).get? key = none := by
  induction m with
  | nil => rfl
  | cons p rest ih =>
    obtain ⟨k, v⟩ := p
    by_cases eq : k = key
    · simpa [erase, eq, get?] using ih
    · have ne : (key == k) = false := by simpa using Ne.symm eq
      simpa [erase, eq, get?, List.lookup_cons, ne] using ih

end Assoc

end TypedArchive
