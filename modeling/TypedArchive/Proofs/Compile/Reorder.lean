import TypedArchive.Proofs.Compile.InPlace
import TypedArchive.Proofs.Compile.Meet

/-! The order of the branches of an `allOf` does not matter. Merging gives the loosest record that is
as tight as every part asks for, if there is one and no part contains itself; and this does not say
in which order the parts come. -/

namespace TypedArchive

namespace Compile

/-- The parts that a part of an `allOf` is made of. -/
inductive Joins (g : Graph) (i : Nat) : Nat → Prop
  | ref {j : Nat} (kind : (node g i).kind = .ref) (target : g.refTarget? i = some j) : Joins g i j
  | branch {j : Nat} (kind : (node g i).kind = .composition) (mem : j ∈ (node g i).allOf) :
      Joins g i j

/-- No way down from a node comes to a node a second time, those visited before included. -/
inductive Unfolds (g : Graph) : List Nat → Nat → Prop
  | node {visiting : List Nat} {i : Nat} (fresh : i ∉ visiting)
      (below : ∀ j, Joins g i j → Unfolds g (visiting ++ [i]) j) : Unfolds g visiting i

theorem joins_ref_iff {g : Graph} {i j k : Nat} (kind : (node g i).kind = .ref)
    (target : g.refTarget? i = some j) : Joins g i k ↔ k = j := by
  constructor
  · rintro (⟨-, target'⟩ | ⟨kind', -⟩)
    · exact Option.some.inj (target'.symm.trans target)
    · cases kind.symm.trans kind'
  · rintro rfl
    exact .ref kind target

theorem joins_composition_iff {g : Graph} {i k : Nat} (kind : (node g i).kind = .composition) :
    Joins g i k ↔ k ∈ (node g i).allOf := by
  constructor
  · rintro (⟨kind', -⟩ | ⟨-, mem⟩)
    · cases kind.symm.trans kind'
    · exact mem
  · exact .branch kind

theorem not_joins {g : Graph} {i k : Nat} (ref : (node g i).kind ≠ .ref)
    (composition : (node g i).kind ≠ .composition) : ¬Joins g i k := by
  rintro (⟨kind, -⟩ | ⟨kind, -⟩)
  · exact ref kind
  · exact composition kind

theorem unfolds_iff {g : Graph} {visiting : List Nat} {i : Nat} : Unfolds g visiting i ↔
    i ∉ visiting ∧ ∀ j, Joins g i j → Unfolds g (visiting ++ [i]) j :=
  ⟨fun ⟨fresh, below⟩ => ⟨fresh, below⟩, fun ⟨fresh, below⟩ => ⟨fresh, below⟩⟩

namespace Merged

/-- Further merging can give the other one. -/
structure Above (m m' : Merged) : Prop where
  fields : ∀ key f, m.fields.get? key = some f →
    ∃ f', m'.fields.get? key = some f' ∧ f'.type.Below f.type
  required : m.required ⊆ m'.required

theorem Above.refl (m : Merged) : Above m m where
  fields _ f found := ⟨f, found, .refl _⟩
  required := List.Subset.refl _

theorem Above.trans {m m₁ m' : Merged} (h : Above m m₁) (h' : Above m₁ m') : Above m m' where
  fields key f found := by
    obtain ⟨f₁, found₁, first⟩ := h.fields key f found
    obtain ⟨f', found', next⟩ := h'.fields key f₁ found₁
    exact ⟨f', found', next.trans first⟩
  required := List.Subset.trans h.required h'.required

/-- The fields are in order and under their names. -/
structure Proper (m : Merged) : Prop where
  sorted : m.fields.Sorted
  name : ∀ key f, m.fields.get? key = some f → f.name = key

theorem Proper.insert {m : Merged} (proper : m.Proper) {f : Field} {name : String}
    (named : f.name = name) : Proper { m with fields := m.fields.insert name f } where
  sorted := proper.sorted.insert
  name key f' found := by
    rw [Assoc.get?_insert] at found
    split at found
    · next eq =>
      cases found
      exact named.trans eq.symm
    · exact proper.name key f' found

/-- A name has a field of a type or of one that is narrower. -/
def Has (m : Merged) (name : String) (type : TypeRef) : Prop :=
  ∃ f, m.fields.get? name = some f ∧ f.type.Below type

theorem Has.mono {m m' : Merged} {name : String} {type : TypeRef} (h : m.Has name type)
    (above : m.Above m') : m'.Has name type := by
  obtain ⟨f, found, below⟩ := h
  obtain ⟨f', found', below'⟩ := above.fields name f found
  exact ⟨f', found', below'.trans below⟩

end Merged

/-- A call that starts from a merge ends with the loosest one that can be reached from it and does
what is asked, if there is one. -/
structure Loosest (P : Prop) (A : Merged → Prop) (m : Merged) (q : Except SchemaError Merged) :
    Prop where
  ends : ∀ e, q = .error e → ¬CutShort e
  possible : ∀ m', q = .ok m' → P
  asks : ∀ m', q = .ok m' → A m'
  above : ∀ m', q = .ok m' → m.Above m'
  proper : ∀ m', q = .ok m' → m.Proper → m'.Proper
  loosest : P → ∀ n, A n → m.Above n → ∃ m', q = .ok m' ∧ m'.Above n

namespace Loosest

variable {P P' : Prop} {A A' : Merged → Prop} {m m' : Merged} {q q' : Except SchemaError Merged}

theorem iff (h : Loosest P A m q) (hP : P ↔ P') (hA : ∀ n, A n ↔ A' n) : Loosest P' A' m q where
  ends := h.ends
  possible m' eq := hP.mp (h.possible m' eq)
  asks m' eq := (hA m').mp (h.asks m' eq)
  above := h.above
  proper := h.proper
  loosest possible n asks := h.loosest (hP.mpr possible) n ((hA n).mpr asks)

theorem error {e : SchemaError} (ends : ¬CutShort e) (never : P → ∀ n, A n → ¬m.Above n) :
    Loosest P A m (.error e) where
  ends _ eq := by
    cases eq
    exact ends
  possible := nofun
  asks := nofun
  above := nofun
  proper := nofun
  loosest possible n asks above := absurd above (never possible n asks)

/-- One call after the other. -/
theorem trans (h : Loosest P A m (.ok m')) (h' : Loosest P' A' m' q)
    (keeps : ∀ n n', A n → n.Above n' → A n') : Loosest (P ∧ P') (fun n => A n ∧ A' n) m q where
  ends := h'.ends
  possible n eq := ⟨h.possible m' rfl, h'.possible n eq⟩
  asks n eq := ⟨keeps m' n (h.asks m' rfl) (h'.above n eq), h'.asks n eq⟩
  above n eq := (h.above m' rfl).trans (h'.above n eq)
  proper n eq proper := h'.proper n eq (h.proper m' rfl proper)
  loosest possible n asks above := by
    obtain ⟨_, eq, above'⟩ := h.loosest possible.1 n asks.1 above
    cases eq
    exact h'.loosest possible.2 n asks.2 above'

theorem error_trans {e : SchemaError} (h : Loosest P A m (.error e)) :
    Loosest (P ∧ P') (fun n => A n ∧ A' n) m (.error e) := by
  refine .error (h.ends e rfl) fun possible n asks above => ?_
  obtain ⟨m', eq, -⟩ := h.loosest possible.1 n asks.1 above
  cases eq

/-- Nothing to do. -/
theorem nothing (m : Merged) : Loosest True (fun _ => True) m (.ok m) where
  ends := nofun
  possible _ _ := trivial
  asks _ _ := trivial
  above _ eq := by
    cases eq
    exact .refl m
  proper _ eq proper := by
    cases eq
    exact proper
  loosest _ n _ above := ⟨m, rfl, above⟩

theorem require (m : Merged) (keys : List String) :
    Loosest True (fun n => keys ⊆ n.required) m
      (.ok { m with required := m.required ++ keys }) where
  ends := nofun
  possible _ _ := trivial
  asks _ eq := by
    cases eq
    exact List.subset_append_right _ _
  above _ eq := by
    cases eq
    exact ⟨(Merged.Above.refl m).fields, List.subset_append_left _ _⟩
  proper _ eq proper := by
    cases eq
    exact ⟨proper.sorted, proper.name⟩
  loosest _ n asks above := ⟨_, rfl, above.fields, List.append_subset.mpr ⟨above.required, asks⟩⟩

/-- A field is put in or narrowed. -/
theorem put {name : String} {type : TypeRef} {f : Field} (named : m.Proper → f.name = name)
    (narrows : ∀ old, m.fields.get? name = some old → f.type.Below old.type)
    (below : f.type.Below type)
    (loosest : ∀ n, n.Has name type → m.Above n → n.Has name f.type) :
    Loosest True (fun n => n.Has name type) m
      (.ok { m with fields := m.fields.insert name f }) where
  ends := nofun
  possible _ _ := trivial
  asks _ eq := by
    cases eq
    exact ⟨f, Assoc.get?_insert_self _ _ _, below⟩
  above _ eq := by
    cases eq
    refine ⟨fun key old found => ?_, List.Subset.refl _⟩
    rw [Assoc.get?_insert]
    split
    · next eq => exact ⟨f, rfl, narrows old (eq ▸ found)⟩
    · exact ⟨old, found, .refl _⟩
  proper _ eq proper := by
    cases eq
    exact proper.insert (named proper)
  loosest _ n asks above := by
    refine ⟨_, rfl, fun key f' found => ?_, above.required⟩
    rw [Assoc.get?_insert] at found
    split at found
    · next eq =>
      cases found
      rw [eq]
      exact loosest n asks above
    · exact above.fields key f' found

theorem add (m : Merged) (root name : String) (type : TypeRef) (description : Option String) :
    Loosest True (fun n => n.Has name type) m (m.add root name type description) := by
  rw [Merged.add]
  cases found : m.fields.get? name with
  | none =>
    refine put (fun _ => rfl) (fun old found' => ?_) (.refl _) fun n asks _ => asks
    rw [found] at found'
    cases found'
  | some old =>
    -- A field of both types is of a type below their meet.
    have meets {n : Merged} (asks : n.Has name type) (above : m.Above n) :
        ∃ t, old.type.unify type = some t ∧ n.Has name t := by
      obtain ⟨f, at', below⟩ := asks
      obtain ⟨f', at'', below'⟩ := above.fields name old found
      cases at'.symm.trans at''
      obtain ⟨t, unify, below⟩ := TypeRef.exists_unify_of_below below' below
      exact ⟨t, unify, f, at', below⟩
    simp only
    cases unify : old.type.unify type with
    | some t =>
      obtain ⟨left, right⟩ := TypeRef.below_of_unify unify
      refine put (fun proper => proper.name name old found) (fun old' found' => ?_) right fun n asks above => ?_
      · cases found.symm.trans found'
        exact left
      · obtain ⟨t', unify', has⟩ := meets asks above
        cases unify.symm.trans unify'
        exact has
    | none =>
      refine .error (by rintro ⟨id, eq⟩; cases eq) fun _ n asks above => ?_
      obtain ⟨t, unify', -⟩ := meets asks above
      rw [unify] at unify'
      cases unify'

end Loosest

/-- Two calls in turn. -/
theorem Returns.both {s : State} {P P' : Prop} {A A' : Merged → Prop} {m : Merged}
    {x : Nat → Build Merged} {f : Nat → Merged → Build Merged}
    (hx : Returns x s (Loosest P A m)) (keeps : ∀ n n', A n → n.Above n' → A n')
    (hf : ∀ m', Returns (fun budget => f budget m') s (Loosest P' A' m')) :
    Returns (fun budget => x budget >>= f budget) s
      (Loosest (P ∧ P') (fun n => A n ∧ A' n) m) :=
  hx.bind (fun _ h => h.error_trans) fun m' h => (hf m').imp fun _ h' => h.trans h' keeps

/-- A property is merged. -/
def HasProperty (g : Graph) (names : Names) (m : Merged) (p : String × Nat) : Prop :=
  ∃ t, TypeIs g names p.2 (.ok t) ∧ m.Has p.1 t

/-- A part of an `allOf` is merged. -/
structure HasPart (g : Graph) (names : Names) (m : Merged) (j : Nat) : Prop where
  mergeable : Mergeable (node g j)
  required : (node g j).required ⊆ m.required
  properties : ∀ p ∈ partProperties (node g j), HasProperty g names m p

section HasPart

variable {g : Graph} {names : Names} {m m' : Merged}

theorem HasProperty.mono {p : String × Nat} (h : HasProperty g names m p) (above : m.Above m') :
    HasProperty g names m' p := by
  obtain ⟨t, type, has⟩ := h
  exact ⟨t, type, has.mono above⟩

theorem HasPart.mono {j : Nat} (h : HasPart g names m j) (above : m.Above m') :
    HasPart g names m' j where
  mergeable := h.mergeable
  required := List.Subset.trans h.required above.required
  properties p mem := (h.properties p mem).mono above

theorem part_iff {i k : Nat} : Part g i k ↔ k = i ∨ ∃ j, Joins g i j ∧ Part g j k := by
  constructor
  · intro part
    cases part with
    | self => exact .inl rfl
    | ref kind target part => exact .inr ⟨_, .ref kind target, part⟩
    | branch kind mem part => exact .inr ⟨_, .branch kind mem, part⟩
  · rintro (rfl | ⟨j, ⟨kind, target⟩ | ⟨kind, mem⟩, part⟩)
    · exact .self
    · exact .ref kind target part
    · exact .branch kind mem part

/-- What the call for a node comes to: all its parts are merged, as loosely as can be. -/
abbrev MergesParts (g : Graph) (names : Names) (visiting : List Nat) (i : Nat) :
    Merged → Except SchemaError Merged → Prop :=
  Loosest (Unfolds g visiting i) fun n => ∀ k, Part g i k → HasPart g names n k

theorem MergesParts.unmergeable {i : Nat} {visiting : List Nat} {e : SchemaError}
    (not : ¬Mergeable (node g i)) (ends : ¬CutShort e) :
    MergesParts g names visiting i m (.error e) :=
  .error ends fun _ _ asks _ => not (asks i .self).mergeable

/-- A part is merged with those that it is made of. -/
theorem MergesParts.of_joins {i : Nat} {visiting : List Nat} {q : Except SchemaError Merged}
    (fresh : i ∉ visiting) (mergeable : Mergeable (node g i))
    (h : Loosest (∀ j, Joins g i j → Unfolds g (visiting ++ [i]) j)
      (fun n => (∀ p ∈ partProperties (node g i), HasProperty g names n p) ∧
        ∀ j, Joins g i j → ∀ k, Part g j k → HasPart g names n k)
      { m with required := m.required ++ (node g i).required } q) :
    MergesParts g names visiting i m q := by
  refine ((Loosest.require m (node g i).required).trans h fun n n' sub above =>
    List.Subset.trans sub above.required).iff ?_ fun n => ?_
  · rw [unfolds_iff]
    simp [fresh]
  · constructor
    · rintro ⟨required, properties, below⟩ k part
      rcases part_iff.mp part with rfl | ⟨j, joins, part⟩
      · exact ⟨mergeable, required, properties⟩
      · exact below j joins k part
    · intro parts
      have own := parts i .self
      exact ⟨own.required, own.properties,
        fun j joins k part => parts k (part_iff.mpr (.inr ⟨j, joins, part⟩))⟩

end HasPart

theorem collectBranches_returns {g g' : Graph} {names : Names} {s : State} (root owner : String) {branches : List Nat} {visiting : List Nat}
    (each : ∀ b ∈ branches, ∀ m, Returns
      (fun budget => collectFields g' budget root b owner visiting m) s
      (MergesParts g names visiting b m)) (m : Merged) :
    Returns (fun budget => collectBranches g' budget root branches owner visiting m) s
      (Loosest (∀ b ∈ branches, Unfolds g visiting b)
        (fun n => ∀ b ∈ branches, ∀ k, Part g b k → HasPart g names n k) m) := by
  induction branches generalizing m with
  | nil =>
    refine .succ (fun budget => ?_)
      (.pure ((Loosest.nothing m).iff (by simp) fun n => by simp))
    rw [collectBranches]
    exact Nat.succ_ne_zero _
  | cons b rest ih =>
    obtain ⟨first, others⟩ := List.forall_mem_cons.mp each
    refine .succ (y := fun budget => do
      let m' ← collectFields g' budget root b owner visiting m
      collectBranches g' budget root rest owner visiting m')
      (fun budget => by rw [collectBranches]) ?_
    refine ((first m).both (fun n n' has above k part => (has k part).mono above)
      (ih others)).imp fun q h => h.iff ?_ fun n => ?_
    · rw [List.forall_mem_cons]
    · rw [List.forall_mem_cons]

/-- The nodes of a graph that have not been visited. -/
def unvisited (g : Graph) (visiting : List Nat) : Finset Nat :=
  (Finset.range g.size).filter (· ∉ visiting)

theorem unvisited_lt {g : Graph} {visiting : List Nat} {i : Nat} (lt : i < g.size)
    (fresh : i ∉ visiting) : (unvisited g (visiting ++ [i])).card < (unvisited g visiting).card := by
  refine Finset.card_lt_card (Finset.ssubset_iff_subset_ne.mpr ⟨fun j mem => ?_, fun eq => ?_⟩)
  · simp only [unvisited, Finset.mem_filter, List.mem_append, not_or] at mem ⊢
    exact ⟨mem.1, mem.2.1⟩
  · have mem : i ∈ unvisited g visiting := by simp [unvisited, lt, fresh]
    rw [← eq] at mem
    simp [unvisited] at mem

section Calls

variable {g g' : Graph} {names : Names} {s : State} (loaded : g.Loaded)
  (named : ∀ i ∈ namedNodes g, ∃ name, names.lookup i = some name)
  (reordered : Reordered g g') (grown : Grown g names s.names)

include loaded named reordered grown

theorem mergeProperties_returns (root owner : String) (properties : Assoc Nat)
    (inPlace : ∀ p ∈ properties, InPlace g p.2) (m : Merged) :
    Returns (fun budget => mergeProperties g' budget root owner properties m) s
      (Loosest True (fun n => ∀ p ∈ properties, HasProperty g names n p) m) := by
  induction properties generalizing m with
  | nil =>
    refine .succ (fun budget => ?_)
      (.pure ((Loosest.nothing m).iff .rfl fun n => by simp))
    rw [mergeProperties]
    exact Nat.succ_ne_zero _
  | cons p rest ih =>
    obtain ⟨first, others⟩ := List.forall_mem_cons.mp inPlace
    obtain ⟨q, type, straight⟩ := first.typeIs loaded named
    refine .succ (y := fun budget => do
      let t ← typeRef g' budget p.2 (owner ++ Text.pascalCase p.1)
      let m' ← m.add root p.1 t (node g' p.2).description
      mergeProperties g' budget root owner rest m') (fun budget => by rw [mergeProperties]) ?_
    refine (type g' s _ reordered grown).bind (fun e eq => ?_) fun t eq => ?_
    · subst eq
      refine .error (fun made => made.elim fun id eq => straight id [] (congrArg _ eq))
        fun _ n asks _ => ?_
      obtain ⟨t, type', -⟩ := asks p List.mem_cons_self
      cases type.unique type'
    · subst eq
      have add := Loosest.add m root p.1 t (node g' p.2).description
      have both : Returns (fun budget => do
          let m' ← liftM (m.add root p.1 t (node g' p.2).description)
          mergeProperties g' budget root owner rest m') s _ :=
        Returns.both ((Returns.lift _).imp fun q eq => eq ▸ add)
          (fun n n' has above => has.mono above) (ih others)
      refine both.imp fun q h => h.iff (and_self_iff) fun n => ?_
      rw [List.forall_mem_cons]
      refine and_congr_left fun _ => ⟨fun has => ⟨t, type, has⟩, ?_⟩
      rintro ⟨t', type', has⟩
      cases type.unique type'
      exact has

omit loaded named grown in
/-- The call for a node that has not been visited. Only the order of its branches is another one. -/
theorem collectFields_fresh {root owner : String} {i : Nat} {visiting : List Nat}
    (fresh : i ∉ visiting) (m : Merged) (budget : Nat) :
    let start : Merged := { m with required := m.required ++ (node g i).required }
    collectFields g' (budget + 1) root i owner visiting m =
      match (node g i).kind with
      | .ref => do
        let target ← refTarget g i
        collectFields g' budget root target owner (visiting ++ [i]) start
      | .composition => do
        if !(node g i).oneOf.isEmpty || !(node g i).anyOf.isEmpty then
          fail (.unsupported .alternativesInAllOf (node g i).id)
        let merged ← mergeProperties g' budget root owner (node g i).properties start
        collectBranches g' budget root (node g' i).allOf owner (visiting ++ [i]) merged
      | .object => mergeProperties g' budget root owner (node g i).properties start
      | .any => return start
      | kind => fail (.unsupported (.allOfBranch kind.text) (node g i).id) := by
  rw [collectFields]
  dsimp only
  rewrite [if_neg (by simpa using fresh), reordered.kind, reordered.refTarget,
    reordered.same Node.required (fun _ _ => rfl), reordered.same Node.oneOf (fun _ _ => rfl),
    reordered.same Node.anyOf (fun _ _ => rfl), reordered.same Node.properties (fun _ _ => rfl),
    reordered.same Node.id (fun _ _ => rfl)]
  cases (node g i).kind <;> rfl

theorem collectFields_returns (root owner : String) {i : Nat} (visiting : List Nat) (m : Merged)
    (inPlace : ∀ j, Part g i j → ∀ p ∈ partProperties (node g j), InPlace g p.2) :
    Returns (fun budget => collectFields g' budget root i owner visiting m) s
      (MergesParts g names visiting i m) := by
  induction left : (unvisited g visiting).card using Nat.strong_induction_on
    generalizing i visiting m with
  | h left ih =>
  by_cases fresh : i ∈ visiting
  · refine .succ (y := fun _ => fail (.circularReference root
      ((visiting ++ [i]).map fun i => (node g' i).id))) (fun budget => ?_)
      (.fail (.error (fun made => made.elim fun id eq => ?_) fun unfolds =>
        absurd fresh (unfolds_iff.mp unfolds).1))
    · rw [collectFields]
      dsimp only
      rw [if_pos (List.contains_iff_mem.mpr fresh)]
      rfl
    · simp at eq
  have smaller (ne : (node g i).kind ≠ .any) := unvisited_lt (lt_of_kind ne) fresh
  rw [left] at smaller
  let start : Merged := { m with required := m.required ++ (node g i).required }
  have own (declared : partProperties (node g i) = (node g i).properties) :=
    mergeProperties_returns loaded named reordered grown root owner (node g i).properties
      (declared ▸ inPlace i .self) start
  cases kind : (node g i).kind with
  | ref =>
    have mergeable : Mergeable (node g i) := by simp [Mergeable, kind]
    obtain ⟨j, target⟩ := refTarget_ok_of_linked loaded kind
    have leads := refTarget_ok target
    have below := ih _ (smaller (by simp [kind])) (visiting ++ [i]) start
      (fun k part => inPlace k (.ref kind leads part)) rfl
    refine .succ (fun budget => ?_)
      (below.imp fun q h => .of_joins fresh mergeable (h.iff ?_ fun n => ?_))
    · rw [collectFields_fresh reordered fresh, kind, target]
      rfl
    · simp [joins_ref_iff kind leads]
    · simp [joins_ref_iff kind leads, partProperties, kind]
  | composition =>
    by_cases mergeable : Mergeable (node g i)
    · have none : (node g i).oneOf = [] ∧ (node g i).anyOf = [] := by
        simpa only [Mergeable, kind] using mergeable
      have declared : partProperties (node g i) = (node g i).properties := by
        simp only [partProperties, kind]
      have listed (b) : b ∈ (node g' i).allOf ↔ b ∈ (node g i).allOf := (reordered.perm i).mem_iff
      have each (b) (mem : b ∈ (node g' i).allOf) (m : Merged) : Returns
          (fun budget => collectFields g' budget root b owner (visiting ++ [i]) m) s
          (MergesParts g names (visiting ++ [i]) b m) :=
        ih _ (smaller (by simp [kind])) (visiting ++ [i]) m
          (fun k part => inPlace k (.branch kind ((listed b).mp mem) part)) rfl
      have both := (own declared).both (fun n n' has above p mem => (has p mem).mono above)
        (collectBranches_returns root owner each)
      refine .succ (fun budget => ?_)
        (both.imp fun q h => .of_joins fresh mergeable (h.iff ?_ fun n => ?_))
      · rw [collectFields_fresh reordered fresh, kind]
        simp only
        rw [if_neg (by simp [none])]
      · simp [joins_composition_iff kind, listed]
      · simp [joins_composition_iff kind, listed, declared]
    · refine .succ (y := fun _ => fail (.unsupported .alternativesInAllOf (node g i).id))
        (fun budget => ?_) (.fail (.unmergeable mergeable (by rintro ⟨_, eq⟩; cases eq)))
      rw [collectFields_fresh reordered fresh, kind]
      simp only
      rw [if_pos (by simpa [Mergeable, kind, imp_iff_not_or] using mergeable)]
      rfl
  | object =>
    have mergeable : Mergeable (node g i) := by simp [Mergeable, kind]
    have declared : partProperties (node g i) = (node g i).properties := by
      simp only [partProperties, kind]
    have none (k) : ¬Joins g i k := not_joins (by simp [kind]) (by simp [kind])
    refine .succ (fun budget => ?_)
      ((own declared).imp fun q h => .of_joins fresh mergeable (h.iff ?_ fun n => ?_))
    · rw [collectFields_fresh reordered fresh, kind]
    · simp [none]
    · simp [none, declared]
  | any =>
    have mergeable : Mergeable (node g i) := by simp [Mergeable, kind]
    have none (k) : ¬Joins g i k := not_joins (by simp [kind]) (by simp [kind])
    refine .succ (y := fun _ => pure start) (fun budget => ?_)
      (.pure (.of_joins fresh mergeable ((Loosest.nothing start).iff ?_ fun n => ?_)))
    · rw [collectFields_fresh reordered fresh, kind]
    · simp [none]
    · simp [none, partProperties, kind]
  | array | primitive | enumeration | constant =>
    have not : ¬Mergeable (node g i) := by simp [Mergeable, kind]
    refine .succ (y := fun _ => fail (.unsupported (.allOfBranch (node g i).kind.text)
      (node g i).id)) (fun budget => ?_) (.fail (.unmergeable not (by rintro ⟨_, eq⟩; cases eq)))
    rw [collectFields_fresh reordered fresh, kind]

end Calls

section Outline

/-- What a field is, but for its description. -/
def outline (f : Field) : String × TypeRef × Bool := (f.name, f.type, f.optional)

variable {m m' : Merged}

theorem Merged.Proper.outline_eq (proper : m.Proper) : m.toFields.map outline =
    m.fields.mapValues fun f => (f.type, !m.required.contains f.name) := by
  rw [Merged.toFields, Assoc.values, List.map_map, List.map_map]
  refine List.map_congr_left fun p mem => ?_
  have named := proper.name p.1 p.2 (Assoc.get?_of_mem proper.sorted.keys_nodup mem)
  simp only [Function.comp_apply, outline, named]

/-- Merges of which each can be narrowed to the other differ in descriptions at most. -/
theorem Merged.Above.outline_eq (above : m.Above m') (above' : m'.Above m) (proper : m.Proper)
    (proper' : m'.Proper) : m.toFields.map outline = m'.toFields.map outline := by
  rw [proper.outline_eq, proper'.outline_eq]
  have requires (key) : m.required.contains key = m'.required.contains key := by
    rw [Bool.eq_iff_iff, List.contains_iff_mem, List.contains_iff_mem]
    exact ⟨fun mem => above.required mem, fun mem => above'.required mem⟩
  refine Assoc.Sorted.ext (List.pairwise_map.mpr proper.sorted)
    (List.pairwise_map.mpr proper'.sorted) fun key => ?_
  rw [Assoc.get?_mapValues, Assoc.get?_mapValues]
  cases found : m.fields.get? key with
  | none =>
    cases found' : m'.fields.get? key with
    | none => rfl
    | some f' =>
      obtain ⟨f, found'', -⟩ := above'.fields key f' found'
      rw [found] at found''
      cases found''
  | some f =>
    obtain ⟨f', found', below⟩ := above.fields key f found
    obtain ⟨f'', found'', below'⟩ := above'.fields key f' found'
    cases found.symm.trans found''
    rw [found', Option.map_some, Option.map_some, below'.antisymm below,
      proper.name key f found, proper'.name key f' found', requires]

/-- What is asked determines the outcome, up to descriptions. -/
theorem Loosest.outline_eq {P : Prop} {A : Merged → Prop} {q q' : Except SchemaError Merged}
    (h : Loosest P A m q) (h' : Loosest P A m q') (proper : m.Proper) :
    q.toOption.map (fun m => m.toFields.map outline) =
      q'.toOption.map fun m => m.toFields.map outline := by
  -- What one call comes to the other one reaches too, and it can be narrowed to it.
  have reaches {q q' n} (h : Loosest P A m q) (h' : Loosest P A m q') (eq : q = .ok n) :
      ∃ n', q' = .ok n' ∧ n'.Above n :=
    h'.loosest (h.possible n eq) n (h.asks n eq) (h.above n eq)
  cases q with
  | ok n =>
    obtain ⟨n', rfl, above'⟩ := reaches h h' rfl
    obtain ⟨_, eq, above⟩ := reaches h' h rfl
    cases eq
    exact congrArg some (above.outline_eq above' (h.proper n rfl proper) (h'.proper n' rfl proper))
  | error e =>
    cases q' with
    | ok n' =>
      obtain ⟨_, eq, -⟩ := reaches h' h rfl
      cases eq
    | error e' => rfl

end Outline

/-- The fields of an `allOf` node, gathered from all its parts. -/
def mergeAllOf (g : Graph) (budget i : Nat) (owner : String) : Build (List Field) := do
  let merged ← collectFields g budget (node g i).id i owner [] {}
  return merged.toFields

/-- An `allOf` that is more than a single branch is compiled to a record of the fields merged. -/
theorem compileNamed_allOf {g : Graph} {i : Nat} (kind : (node g i).kind = .composition)
    (several : singleBranch (node g i) = none) (allOf : (node g i).allOf ≠ [])
    (alone : (node g i).oneOf = [] ∧ (node g i).anyOf = []) (budget : Nat) (name : String) :
    compileNamed g (budget + 1) i name = (do
      let fields ← mergeAllOf g budget i name
      modify fun s => s.enter
        ⟨name, (node g i).id, (node g i).description, .record fields⟩ : Build Unit) := by
  rw [compileNamed, mergeAllOf]
  simp [kind, several, allOf, alone]
  rfl

/-- A merge succeeded with fields of this outline, or failed with an error of the graph. -/
def Outlined (outcome : Option (List (String × TypeRef × Bool)))
    (q : Except SchemaError (List Field)) : Prop :=
  (∀ e, q = .error e → ¬CutShort e) ∧ q.toOption.map (List.map outline) = outcome

theorem mergeAllOf_outlined {g : Graph} (loaded : g.Loaded) {i : Nat}
    (inPlace : ∀ j, Part g i j → ∀ p ∈ partProperties (node g j), InPlace g p.2) :
    ∃ outcome, ∀ g' s owner, Reordered g g' → Moment g' s →
      Returns (fun budget => mergeAllOf g' budget i owner) s (Outlined outcome) := by
  obtain ⟨names, s₀, run, -, given, nodes⟩ := reserveNames_owned loaded
  have named (j) (mem : j ∈ namedNodes g) : ∃ name, s₀.names.lookup j = some name := by
    rw [← nodes] at mem
    refine Option.ne_none_iff_exists'.mp fun absent => ?_
    exact not_mem_of_lookup_eq_none absent (List.map_subset _ given mem)
  have merges (g' : Graph) (s : State) (root owner : String) (reordered : Reordered g g')
      (grown : Grown g s₀.names s.names) :=
    collectFields_returns loaded named reordered grown root owner [] {} inPlace
  obtain ⟨q₀, loosest₀, -⟩ := merges g s₀ "" "" (.refl g) (.refl g s₀.names)
  refine ⟨q₀.toOption.map fun m => m.toFields.map outline, fun g' s owner reordered moment => ?_⟩
  obtain ⟨names', s₀', run', later⟩ := moment
  rw [reordered.reserveNames, run] at run'
  cases run'
  have grown : Grown g s₀.names s.names := by
    refine ⟨later.grown.kept, fun j name absent found => ?_⟩
    rw [← reordered.hoists]
    exact later.grown.fresh j name absent found
  have start : Merged.Proper {} := ⟨Assoc.sorted_nil, nofun⟩
  refine (merges g' s (node g' i).id owner reordered grown).bind
    (fun e h => ⟨fun _ eq => h.ends _ (by cases eq; rfl), ?_⟩) fun m h => .pure ⟨nofun, ?_⟩
  · exact h.outline_eq loosest₀ start
  · exact h.outline_eq loosest₀ start

end Compile

open Compile in
/-- An `allOf` of a loaded graph whose properties have types in place is merged alike in every order
of branches, its own and those of the nodes that it is made of: at any two moments of compilation it
comes to the same names, types and optional flags, or fails both times. -/
theorem Graph.mergeAllOf_reordered {b : Bundle} {g g' : Graph} (load : Graph.load b = .ok g)
    (reordered : Reordered g g') {i : Nat}
    (inPlace : ∀ j, Part g i j → ∀ p ∈ partProperties (node g j), InPlace g p.2) {s s' : State}
    (moment : Moment g s) (moment' : Moment g' s') (owner owner' : String) :
    ∃ outcome, Returns (fun budget => mergeAllOf g budget i owner) s (Outlined outcome) ∧
      Returns (fun budget => mergeAllOf g' budget i owner') s' (Outlined outcome) := by
  obtain ⟨loaded, -⟩ := Graph.loaded_of_load load
  obtain ⟨outcome, merges⟩ := mergeAllOf_outlined loaded inPlace
  exact ⟨outcome, merges g s owner (.refl g) moment, merges g' s' owner' reordered moment'⟩

namespace Compile

/-- Branches in another order in every node. -/
theorem reordered_map (g : Graph) {order : List Nat → List Nat}
    (perm : ∀ branches, (order branches).Perm branches) :
    Reordered g
      { g with nodes := g.nodes.map fun n => { n with allOf := order n.allOf } } where
  byId := rfl
  node i := by
    simp only [node, Graph.node?, Array.getElem?_map]
    cases g.nodes[i]? with
    | none => rfl
    | some n => rfl
  perm i := by
    simp only [node, Graph.node?, Array.getElem?_map]
    cases g.nodes[i]? with
    | none => rfl
    | some n => exact perm n.allOf

/-- Whether a node is found to need no entry of its own within some steps. -/
def inPlaceWithin (g : Graph) : (steps : Nat) → Nat → Bool
  | 0, _ => false
  | steps + 1, i => (namedNodes g).contains i ||
    !hoists (node g i) && (innerNode? g i).all (inPlaceWithin g steps)

theorem inPlace_of_within {g : Graph} {steps i : Nat} (found : inPlaceWithin g steps i = true) :
    InPlace g i := by
  induction steps generalizing i with
  | zero => cases found
  | succ steps ih =>
    rw [inPlaceWithin, Bool.or_eq_true, Bool.and_eq_true, Bool.not_eq_true',
      List.contains_iff_mem] at found
    rcases found with mem | ⟨needs, inner⟩
    · exact .named mem
    · refine .written needs fun j eq => ih ?_
      rw [eq] at inner
      exact inner

/-- Whether a document alone is loaded and its nodes are named so that a test passes, which is told
the root as well. -/
def startsTo (name text : String) (test : Graph → Nat → State → Bool) : Bool :=
  match Graph.load ⟨[(name, text)]⟩ with
  | .ok g =>
    match g.root? name, reserveNames g {} with
    | some i, .ok (_, s) => test g i s
    | _, _ => false
  | .error _ => false

theorem exists_of_startsTo {name text : String} {test : Graph → Nat → State → Bool}
    (h : startsTo name text test = true) : ∃ g i names s, Graph.load ⟨[(name, text)]⟩ = .ok g ∧
      g.root? name = some i ∧ reserveNames g {} = .ok (names, s) ∧ test g i s = true := by
  rw [startsTo] at h
  split at h
  · next g load =>
    split at h
    · next i names s root reserve => exact ⟨g, i, names, s, load, root, reserve, h⟩
    · cases h
  · cases h

end Compile

set_option maxRecDepth 100000 in
open Compile in
/-- The definition is reached along a reference, narrows a number of the other branch, and has two
branches of its own. -/
theorem Graph.mergeAllOf_reordered_nested :
    let record (name : String) (type : Json) : Json :=
      .object [("properties", .object [(name, type)])]
    let typed (name : String) : Json := .object [("type", .string name)]
    let ref (target : String) : Json := .object [("$ref", .string target)]
    let base : Json := .object
      [("allOf", .array [record "x" (typed "integer"), record "y" (ref "#")])]
    let schema : Json := .object
      [("allOf", .array [ref "#/definitions/b", record "x" (typed "number")]),
        ("definitions", .object [("b", base)]), ("required", .array [.string "x"])]
    let merged : List (String × TypeRef × Bool) :=
      [("x", .primitive .integer, false), ("y", .named "A", true)]
    let run (g : Graph) (i : Nat) (s : State) : Option (List (String × TypeRef × Bool)) :=
      ((mergeAllOf g 100 i "A").run' s).toOption.map (List.map outline)
    let reversed (g : Graph) : Graph :=
      { g with nodes := g.nodes.map fun n => { n with allOf := n.allOf.reverse } }
    ∃ g i s, Graph.load ⟨[("a.json", schema.render)]⟩ = .ok g ∧ g.root? "a.json" = some i ∧
      Moment g s ∧ run g i s = some merged ∧ run (reversed g) i s = some merged ∧
      ∃ outcome, Returns (fun budget => mergeAllOf g budget i "A") s (Outlined outcome) ∧
        Returns (fun budget => mergeAllOf (reversed g) budget i "A") s (Outlined outcome) := by
  intro record typed ref base schema merged run reversed
  have runs : startsTo "a.json" schema.render (fun g i s =>
      (List.range g.size).all (fun j =>
        (partProperties (node g j)).all fun p => inPlaceWithin g 3 p.2) &&
      run g i s == some merged && run (reversed g) i s == some merged) = true := by
    rw [startsTo, Graph.load_eq_loadBytes]
    decide +kernel
  obtain ⟨g, i, names, s, load, root, reserve, runs⟩ := exists_of_startsTo runs
  simp only [Bool.and_eq_true, List.all_eq_true, List.mem_range, beq_iff_eq] at runs
  obtain ⟨⟨inPlace, first⟩, second⟩ := runs
  have reordered : Reordered g (reversed g) := reordered_map g List.reverse_perm
  have moment : Moment g s := ⟨names, s, reserve, .refl⟩
  have reserve' : reserveNames (reversed g) {} = .ok (names, s) := by
    rw [reordered.reserveNames, reserve]
  have moment' : Moment (reversed g) s := ⟨names, s, reserve', .refl⟩
  refine ⟨g, i, s, load, root, moment, first, second, mergeAllOf_reordered load reordered
    (fun j _ p mem => ?_) moment moment' "A" "A"⟩
  refine inPlace_of_within (inPlace j ?_ p mem)
  by_contra ge
  rw [node, Graph.node?, Array.getElem?_eq_none (Nat.le_of_not_lt ge)] at mem
  cases mem

end TypedArchive
