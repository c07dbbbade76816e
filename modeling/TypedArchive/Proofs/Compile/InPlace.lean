import TypedArchive.Proofs.Compile.Budget
import TypedArchive.Proofs.Compile.Stable

/-! Types in place. A node that needs no entry of its own comes to one type, given a sufficient
budget, whatever was named before and however the branches of `allOf`s are ordered. -/

namespace TypedArchive.Compile

/-- For every budget from some on a call leaves the state as it is and has one result, of which
something holds. -/
def Returns {α : Type} (x : Nat → Build α) (s : State) (post : Except SchemaError α → Prop) :
    Prop :=
  ∃ q, post q ∧ ∃ enough, ∀ budget ≥ enough, x budget s = q.map fun a => (a, s)

section Returns

variable {α β : Type} {s : State} {x y : Nat → Build α} {f : Nat → α → Build β}
  {post : Except SchemaError α → Prop} {post' : Except SchemaError β → Prop}

theorem Returns.pure {a : α} (holds : post (.ok a)) : Returns (fun _ => pure a) s post :=
  ⟨.ok a, holds, 0, fun _ _ => rfl⟩

theorem Returns.fail {e : SchemaError} (holds : post (.error e)) :
    Returns (fun _ => fail e) s post :=
  ⟨.error e, holds, 0, fun _ _ => rfl⟩

theorem Returns.lift (r : Except SchemaError α) :
    Returns (fun _ => (liftM r : Build α)) s (· = r) := by
  refine ⟨r, rfl, 0, fun _ _ => ?_⟩
  cases r <;> rfl

theorem Returns.imp {weaker : Except SchemaError α → Prop} (hx : Returns x s post)
    (weaken : ∀ q, post q → weaker q) : Returns x s weaker := by
  obtain ⟨q, holds, settled⟩ := hx
  exact ⟨q, weaken q holds, settled⟩

/-- A call that goes on with the rest of its budget. -/
theorem Returns.succ (step : ∀ budget, x (budget + 1) s = y budget s) (hy : Returns y s post) :
    Returns x s post := by
  obtain ⟨q, holds, enough, settled⟩ := hy
  refine ⟨q, holds, enough + 1, fun budget le => ?_⟩
  obtain ⟨budget, rfl⟩ := Nat.exists_eq_add_one.mpr (Nat.lt_of_lt_of_le enough.succ_pos le)
  rw [step]
  exact settled budget (Nat.le_of_succ_le_succ le)

theorem Returns.bind (hx : Returns x s post) (fails : ∀ e, post (.error e) → post' (.error e))
    (hf : ∀ a, post (.ok a) → Returns (fun budget => f budget a) s post') :
    Returns (fun budget => x budget >>= f budget) s post' := by
  obtain ⟨q, holds, enough, settled⟩ := hx
  cases q with
  | error e =>
    refine ⟨.error e, fails e holds, enough, fun budget le => ?_⟩
    change (x budget s >>= fun p => f budget p.1 p.2) = _
    rw [settled budget le]
    rfl
  | ok a =>
    obtain ⟨q, holds', enough', settled'⟩ := hf a holds
    refine ⟨q, holds', max enough enough', fun budget le => ?_⟩
    change (x budget s >>= fun p => f budget p.1 p.2) = _
    rw [settled budget (le_of_max_le_left le)]
    exact settled' budget (le_of_max_le_right le)

theorem Returns.map {q : Except SchemaError α} (h : α → β) (hx : Returns x s (· = q)) :
    Returns (fun budget => x budget >>= fun a => Pure.pure (h a)) s (· = q.map h) :=
  hx.bind (fun _ eq => eq ▸ rfl) fun _ eq => .pure (eq ▸ rfl)

/-- A call has one result only. -/
theorem Returns.unique {q q' : Except SchemaError α} (h : Returns x s (· = q))
    (h' : Returns x s (· = q')) : q = q' := by
  obtain ⟨_, rfl, enough, settled⟩ := h
  obtain ⟨_, rfl, enough', settled'⟩ := h'
  have same := settled (max enough enough') (le_max_left _ _)
  rw [settled' _ (le_max_right _ _)] at same
  rename_i q q'
  cases q <;> cases q' <;> cases same <;> rfl

end Returns

/-- All that compilation reads of a graph is the same, except that `allOf`s may list their branches
in another order. -/
structure Reordered (g g' : Graph) : Prop where
  byId : g'.byId = g.byId
  node : ∀ i, node g' i = { node g i with allOf := (node g' i).allOf }
  perm : ∀ i, (Compile.node g' i).allOf.Perm (Compile.node g i).allOf

theorem Reordered.refl (g : Graph) : Reordered g g where
  byId := rfl
  node _ := rfl
  perm _ := .refl _

theorem refTarget?_eq (g : Graph) (i : Nat) :
    g.refTarget? i = (node g i).reference.bind Reference.target := by
  rw [Graph.refTarget?, node]
  cases g.node? i <;> rfl

section Reordered

variable {g g' : Graph} (reordered : Reordered g g')

include reordered

/-- What does not look at the branches of an `allOf`. -/
theorem Reordered.same {α : Type} (f : Node → α)
    (ignores : ∀ n branches, f { n with allOf := branches } = f n) (i : Nat) :
    f (Compile.node g' i) = f (Compile.node g i) := by
  rw [reordered.node, ignores]

theorem Reordered.kind (i : Nat) : (Compile.node g' i).kind = (Compile.node g i).kind :=
  reordered.same Node.kind (fun _ _ => rfl) i

theorem Reordered.refTarget? (i : Nat) : g'.refTarget? i = g.refTarget? i := by
  rw [refTarget?_eq, refTarget?_eq]
  exact reordered.same (fun n => n.reference.bind Reference.target) (fun _ _ => rfl) i

theorem Reordered.refTarget (i : Nat) : Compile.refTarget g' i = Compile.refTarget g i := by
  rw [Compile.refTarget, Compile.refTarget, reordered.refTarget?]
  have raw := reordered.same (fun n => SchemaError.unresolvedReference
    ((n.reference.map Reference.raw).getD "") n.id) (fun _ _ => rfl) i
  cases g.refTarget? i with
  | some j => rfl
  | none => exact congrArg Except.error raw

theorem Reordered.singleBranch (i : Nat) :
    Compile.singleBranch (Compile.node g' i) = Compile.singleBranch (Compile.node g i) := by
  have perm := reordered.perm i
  rw [reordered.node]
  generalize (Compile.node g' i).allOf = branches at perm ⊢
  simp only [Compile.singleBranch]
  cases own : (Compile.node g i).allOf with
  | nil =>
    rw [own] at perm
    rw [perm.eq_nil]
  | cons first rest =>
    cases rest with
    | nil =>
      rw [own] at perm
      rw [perm.eq_singleton]
    | cons second rest =>
      rw [own] at perm
      have length := perm.length_eq
      obtain _ | ⟨a, _ | ⟨b, more⟩⟩ := branches
      · cases length
      · cases length
      · simp

theorem Reordered.hoists (i : Nat) :
    Compile.hoists (Compile.node g' i) = Compile.hoists (Compile.node g i) := by
  rw [Compile.hoists, Compile.hoists, reordered.singleBranch]
  rw [reordered.kind, reordered.same Node.properties (fun _ _ => rfl),
    reordered.same Node.enumValues (fun _ _ => rfl)]

theorem Reordered.namedNodes : Compile.namedNodes g' = Compile.namedNodes g := by
  have order : g'.inIdOrder = g.inIdOrder := by rw [Graph.inIdOrder, Graph.inIdOrder, reordered.byId]
  have targets : g'.refTarget? = g.refTarget? := funext reordered.refTarget?
  rw [Compile.namedNodes, Compile.namedNodes, order, targets]
  refine List.filter_congr fun i _ => ?_
  have own : ((Compile.node g' i).isRoot && (Compile.node g' i).hasContent ||
      (Compile.node g' i).isDefinition) = ((Compile.node g i).isRoot &&
        (Compile.node g i).hasContent || (Compile.node g i).isDefinition) :=
    reordered.same (fun n => n.isRoot && n.hasContent || n.isDefinition) (fun _ _ => rfl) i
  dsimp only
  rw [own]

theorem Reordered.reserveNames : Compile.reserveNames g' = Compile.reserveNames g := by
  have preferred (i : Nat) : TypeName.preferred (Compile.node g' i) =
      TypeName.preferred (Compile.node g i) := reordered.same TypeName.preferred (fun _ _ => rfl) i
  simp only [Compile.reserveNames, reordered.namedNodes, preferred]

end Reordered

/-- The node whose type makes up the type of another one in place. -/
def innerNode? (g : Graph) (i : Nat) : Option Nat :=
  let n := node g i
  match singleBranch n with
  | some branch => some branch
  | none =>
    match n.kind with
    | .ref => g.refTarget? i
    | .array => n.items
    | .object => n.additional
    | _ => none

/-- A node needs no entry of its own: it has one from the start, or its type is written in place,
and so are the types inside. -/
inductive InPlace (g : Graph) : Nat → Prop
  | named {i : Nat} (mem : i ∈ namedNodes g) : InPlace g i
  | written {i : Nat} (needs : hoists (node g i) = false)
      (inner : ∀ j, innerNode? g i = some j → InPlace g j) : InPlace g i

/-- When identifiers are distinct, a reference needs no entry: its target has one from the start. -/
theorem inPlace_of_ref {g : Graph} (loaded : g.Loaded) (ids : (g.nodes.toList.map Node.id).Nodup)
    {i : Nat} (kind : (node g i).kind = .ref) : InPlace g i := by
  obtain ⟨j, target⟩ := refTarget_ok_of_linked loaded kind
  have leads := refTarget_ok target
  have single : singleBranch (node g i) = none := by simp [singleBranch, kind]
  refine .written (by simp [hoists, kind]) fun k inner => .named ?_
  simp only [innerNode?, single, kind, leads] at inner
  cases inner
  have lt : i < g.size := lt_of_kind (by simp [kind])
  exact (mem_namedNodes loaded ids).mpr ⟨refTarget_lt loaded target, .inr (.inr ⟨i, lt, leads⟩)⟩

/-- What the type of a node comes to from the names given at the start. Neither names that are given
later nor the order of branches make a difference. -/
def TypeIs (g : Graph) (names : Names) (i : Nat) (q : Except SchemaError TypeRef) : Prop :=
  ∀ g' s hint, Reordered g g' → Grown g names s.names →
    Returns (fun budget => typeRef g' budget i hint) s (· = q)

theorem TypeIs.unique {g : Graph} {names : Names} {i : Nat} {q q' : Except SchemaError TypeRef}
    (h : TypeIs g names i q) (h' : TypeIs g names i q') : q = q' :=
  (h g { names } "" (.refl g) (.refl g names)).unique (h' g { names } "" (.refl g) (.refl g names))

/-- A result that is no circle of references. -/
def Straight {α : Type} (q : Except SchemaError α) : Prop :=
  ∀ node path, q ≠ .error (.circularReference node path)

theorem Straight.ok {α : Type} (a : α) : Straight (.ok a) := fun _ _ => nofun

theorem Straight.map {α β : Type} {q : Except SchemaError α} (straight : Straight q) (f : α → β) :
    Straight (q.map f) := by
  intro node path eq
  cases q with
  | error e =>
    cases eq
    exact straight node path rfl
  | ok a => cases eq

theorem constantOf_straight (n : Node) : Straight (constantOf n) := by
  intro node path eq
  obtain ⟨v, eq⟩ := constantOf_error eq
  cases eq

theorem enumOf_straight (n : Node) : Straight (enumOf n) := by
  intro node path eq
  obtain ⟨v, eq⟩ := enumOf_error eq
  cases eq

section TypeIs

variable {g : Graph} {names : Names} {i : Nat}

theorem get_bind_run {α : Type} (f : State → Build α) (s : State) : (get >>= f) s = f s s := rfl

theorem typeIs_named {name : String} (owned : names.lookup i = some name) :
    TypeIs g names i (.ok (.named name)) := by
  intro g' s hint _ grown
  refine .succ (fun budget => ?_) (.lift (.ok (TypeRef.named name)))
  rw [typeRef, get_bind_run]
  simp only [grown.kept i name owned]
  rfl

end TypeIs

section Written

variable {g : Graph} {names : Names} {i j : Nat} {q : Except SchemaError TypeRef}
  (unnamed : names.lookup i = none) (needs : hoists (node g i) = false)

include unnamed needs

/-- The call for a node that has no name and is given none. -/
theorem typeIs_of_step {y : Graph → String → Nat → Build TypeRef}
    (step : ∀ g' s hint budget, Reordered g g' → s.names.lookup i = none →
      typeRef g' (budget + 1) i hint s = y g' hint budget s)
    (returns : ∀ g' s hint, Reordered g g' → Grown g names s.names →
      Returns (y g' hint) s (· = q)) : TypeIs g names i q := by
  intro g' s hint reordered grown
  refine .succ (fun budget => step g' s hint budget reordered ?_) (returns g' s hint reordered grown)
  cases found : s.names.lookup i with
  | none => rfl
  | some name =>
    rw [grown.fresh i name unnamed found] at needs
    cases needs

theorem typeIs_single (branch : singleBranch (node g i) = some j) (type : TypeIs g names j q) :
    TypeIs g names i q := by
  refine typeIs_of_step unnamed needs (y := fun g' hint budget => typeRef g' budget j hint)
    (fun g' s hint budget reordered absent => ?_) type
  rw [typeRef, get_bind_run]
  simp only [absent, reordered.singleBranch, branch]

variable (branch : singleBranch (node g i) = none)

include branch

theorem typeIs_ref (kind : (node g i).kind = .ref) (target : refTarget g i = .ok j)
    (type : TypeIs g names j q) : TypeIs g names i q := by
  refine typeIs_of_step unnamed needs (y := fun g' hint budget => typeRef g' budget j hint)
    (fun g' s hint budget reordered absent => ?_) type
  rw [typeRef, get_bind_run]
  simp only [absent, reordered.singleBranch, branch, reordered.kind, kind, reordered.refTarget,
    target]
  rfl

theorem typeIs_plain {p : Primitive}
    (kind : (node g i).kind = .primitive p ∨ (node g i).kind = .any ∧ p = .any) :
    TypeIs g names i (.ok (.primitive p)) := by
  refine typeIs_of_step unnamed needs (fun g' s hint budget reordered absent => ?_)
    fun _ _ _ _ _ => .lift _
  rw [typeRef, get_bind_run]
  rcases kind with kind | ⟨kind, rfl⟩ <;>
    simp only [absent, reordered.singleBranch, branch, reordered.kind, kind] <;> rfl

theorem typeIs_constant (kind : (node g i).kind = .constant) :
    TypeIs g names i ((constantOf (node g i)).map .literal) := by
  refine typeIs_of_step unnamed needs
    (y := fun g' _ _ => do return .literal (← constantOf (node g' i)))
    (fun g' s hint budget reordered absent => ?_) fun g' s hint reordered _ => ?_
  · rw [typeRef, get_bind_run]
    simp only [absent, reordered.singleBranch, branch, reordered.kind, kind]
  · rw [reordered.same constantOf (fun _ _ => rfl)]
    exact (Returns.lift _).map _

/-- An enumeration of one value has a literal, so the default is never taken. -/
theorem typeIs_enumeration (kind : (node g i).kind = .enumeration) : TypeIs g names i
    ((enumOf (node g i)).map fun values => .literal (values.1.headD (.string ""))) := by
  have one : ((node g i).enumValues.getD []).length = 1 := by
    simpa [hoists, branch, kind] using needs
  refine typeIs_of_step unnamed needs (fun g' s hint budget reordered absent => ?_)
    fun _ _ _ _ _ => .lift _
  rw [typeRef, get_bind_run]
  simp only [absent, reordered.singleBranch, branch, reordered.kind, kind,
    reordered.same Node.enumValues (fun _ _ => rfl), one, if_true,
    reordered.same enumOf (fun _ _ => rfl)]
  cases literals : enumOf (node g i) with
  | error e => rfl
  | ok values =>
    obtain ⟨_ | ⟨l, more⟩, descriptions⟩ := values
    · exact absurd rfl (enumOf_ne_nil one literals)
    · rfl

theorem typeIs_array (kind : (node g i).kind = .array)
    (element : match (node g i).items with
      | some j => TypeIs g names j q
      | none => q = .ok .any) : TypeIs g names i (q.map .array) := by
  have items (g' s owner) (reordered : Reordered g g') (grown : Grown g names s.names) :
      Returns (fun budget => itemsRef g' budget (node g' i) owner) s (· = q) := by
    have same := reordered.same Node.items (fun _ _ => rfl) i
    cases items : (node g i).items with
    | some j =>
      rw [items] at same element
      refine .succ (fun budget => ?_) (element g' s (owner ++ "Item") reordered grown)
      rw [itemsRef]
      simp only [same]
    | none =>
      rw [items] at same element
      subst element
      refine .succ (fun budget => ?_) (.lift (.ok TypeRef.any))
      rw [itemsRef]
      simp only [same]
      rfl
  refine typeIs_of_step unnamed needs
    (y := fun g' hint budget => do return .array (← itemsRef g' budget (node g' i) hint))
    (fun g' s hint budget reordered absent => ?_)
    fun g' s hint reordered grown => (items g' s hint reordered grown).map _
  rw [typeRef, get_bind_run]
  simp only [absent, reordered.singleBranch, branch, reordered.kind, kind]

theorem typeIs_map (kind : (node g i).kind = .object)
    (values : match (node g i).additional with
      | some j => TypeIs g names j q
      | none => q = .ok .any) : TypeIs g names i (q.map .map) := by
  have bare : (node g i).properties.isEmpty = true := by
    simpa [hoists, branch, kind] using needs
  have same {g'} (reordered : Reordered g g') : (node g' i).properties = (node g i).properties ∧
      (node g' i).additional = (node g i).additional :=
    ⟨reordered.same Node.properties (fun _ _ => rfl) i,
      reordered.same Node.additional (fun _ _ => rfl) i⟩
  cases additional : (node g i).additional with
  | some j =>
    rw [additional] at values
    refine typeIs_of_step unnamed needs
      (y := fun g' hint budget => do return .map (← typeRef g' budget j (hint ++ "Value")))
      (fun g' s hint budget reordered absent => ?_)
      fun g' s hint reordered grown => (values g' s _ reordered grown).map _
    rw [typeRef, get_bind_run]
    simp only [absent, reordered.singleBranch, branch, reordered.kind, kind, same reordered, bare,
      if_true, additional]
  | none =>
    rw [additional] at values
    subst values
    refine typeIs_of_step unnamed needs (fun g' s hint budget reordered absent => ?_)
      fun _ _ _ _ _ => .lift _
    rw [typeRef, get_bind_run]
    simp only [absent, reordered.singleBranch, branch, reordered.kind, kind, same reordered, bare,
      if_true, additional]
    rfl

omit branch

/-- The type of a node that is written in place, from the type inside. -/
theorem typeIs_written (loaded : g.Loaded)
    (inner : ∀ j, innerNode? g i = some j → ∃ q, TypeIs g names j q ∧ Straight q) :
    ∃ q, TypeIs g names i q ∧ Straight q := by
  -- The type of a child, which may be missing.
  have child {c : Option Nat} (of : ∀ j, c = some j → innerNode? g i = some j) :
      ∃ q, (match c with
        | some j => TypeIs g names j q
        | none => q = .ok .any) ∧ Straight q := by
    cases c with
    | some j => exact inner j (of j rfl)
    | none => exact ⟨.ok .any, rfl, .ok _⟩
  cases branch : singleBranch (node g i) with
  | some b =>
    obtain ⟨q, type, straight⟩ := inner b (by simp only [innerNode?, branch])
    exact ⟨q, typeIs_single unnamed needs branch type, straight⟩
  | none =>
    cases kind : (node g i).kind with
    | primitive p => exact ⟨_, typeIs_plain unnamed needs branch (.inl kind), .ok _⟩
    | any => exact ⟨_, typeIs_plain unnamed needs branch (.inr ⟨kind, rfl⟩), .ok _⟩
    | constant =>
      exact ⟨_, typeIs_constant unnamed needs branch kind, (constantOf_straight _).map _⟩
    | enumeration =>
      exact ⟨_, typeIs_enumeration unnamed needs branch kind, (enumOf_straight _).map _⟩
    | ref =>
      obtain ⟨j, target⟩ := refTarget_ok_of_linked loaded kind
      obtain ⟨q, type, straight⟩ :=
        inner j (by simp only [innerNode?, branch, kind, refTarget_ok target])
      exact ⟨q, typeIs_ref unnamed needs branch kind target type, straight⟩
    | array =>
      obtain ⟨q, element, straight⟩ := child (c := (node g i).items)
        fun j items => by simp only [innerNode?, branch, kind, items]
      exact ⟨_, typeIs_array unnamed needs branch kind element, straight.map _⟩
    | object =>
      obtain ⟨q, values, straight⟩ := child (c := (node g i).additional)
        fun j additional => by simp only [innerNode?, branch, kind, additional]
      exact ⟨_, typeIs_map unnamed needs branch kind values, straight.map _⟩
    | composition => simp [hoists, branch, kind] at needs

end Written

/-- The type of a node in place does not depend on what was named later. -/
theorem InPlace.typeIs {g : Graph} {names : Names} {i : Nat} (loaded : g.Loaded)
    (named : ∀ i ∈ namedNodes g, ∃ name, names.lookup i = some name) (inPlace : InPlace g i) :
    ∃ q, TypeIs g names i q ∧ Straight q := by
  induction inPlace with
  | named mem =>
    obtain ⟨name, owned⟩ := named _ mem
    exact ⟨_, typeIs_named owned, .ok _⟩
  | @written i needs _ ih =>
    cases owned : names.lookup i with
    | some name => exact ⟨_, typeIs_named owned, .ok _⟩
    | none => exact typeIs_written owned needs loaded ih

end TypedArchive.Compile
