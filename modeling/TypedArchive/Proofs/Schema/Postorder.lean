import TypedArchive.Proofs.Schema.Forest
import TypedArchive.Proofs.Schema.Locate

/-! The arena of a loaded graph is in postorder: the nodes at and below a place of a document stand
together, and the node at the place is the last of them. -/

namespace TypedArchive

/-- A node stands in the document of another, at its place or below. -/
def Node.Under (m n : Node) : Prop := m.document = n.document ∧ n.pointer <+: m.pointer

/-- A node has the reference that its schema has. -/
def Node.Cites (n : Node) : Prop :=
  n.schema.get? "$ref" = n.reference.map fun r => .string r.raw

namespace Graph

/-- With each node, the nodes under it stand together and end with it. -/
def Grouped (ns : List Node) : Prop :=
  ∀ (i : Nat) (n : Node), ns[i]? = some n → ∃ first ≤ i, ∀ (j : Nat) (m : Node),
    ns[j]? = some m → (m.Under n ↔ first ≤ j ∧ j ≤ i)

theorem grouped_nil : Grouped [] := by
  intro i n found
  cases found

/-- Groups without a common place stand side by side. -/
theorem Grouped.append {ns ms : List Node} (hn : Grouped ns) (hm : Grouped ms)
    (apart : ∀ n ∈ ns, ∀ m ∈ ms, ¬m.Under n ∧ ¬n.Under m) : Grouped (ns ++ ms) := by
  intro i n found
  rcases Nat.lt_or_ge i ns.length with lt | ge
  · rw [List.getElem?_append_left lt] at found
    obtain ⟨first, le, block⟩ := hn i n found
    refine ⟨first, le, fun j m other => ?_⟩
    rcases Nat.lt_or_ge j ns.length with lt' | ge'
    · rw [List.getElem?_append_left lt'] at other
      exact block j m other
    · rw [List.getElem?_append_right ge'] at other
      have under := (apart n (List.mem_of_getElem? found) m (List.mem_of_getElem? other)).1
      exact iff_of_false under (by omega)
  · rw [List.getElem?_append_right ge] at found
    obtain ⟨first, le, block⟩ := hm _ n found
    refine ⟨first + ns.length, by omega, fun j m other => ?_⟩
    rcases Nat.lt_or_ge j ns.length with lt' | ge'
    · rw [List.getElem?_append_left lt'] at other
      have under := (apart m (List.mem_of_getElem? other) n (List.mem_of_getElem? found)).2
      exact iff_of_false under (by omega)
    · rw [List.getElem?_append_right ge'] at other
      rw [block _ m other]
      omega

/-- A node comes after everything below it. -/
theorem Grouped.concat {ns : List Node} {n : Node} (hn : Grouped ns)
    (below : ∀ m ∈ ns, m.Under n ∧ ¬n.Under m) : Grouped (ns ++ [n]) := by
  intro i k found
  -- an earlier node keeps its group, and the group of the last one is all that there is
  rcases Nat.lt_or_ge i ns.length with lt | ge
  · rw [List.getElem?_append_left lt] at found
    obtain ⟨first, le, block⟩ := hn i k found
    refine ⟨first, le, fun j m other => ?_⟩
    rcases Nat.lt_or_ge j ns.length with lt' | ge'
    · rw [List.getElem?_append_left lt'] at other
      exact block j m other
    · rw [List.getElem?_append_right ge'] at other
      cases List.mem_singleton.mp (List.mem_of_getElem? other)
      exact iff_of_false (below k (List.mem_of_getElem? found)).2 (by omega)
  · rw [List.getElem?_append_right ge] at found
    cases List.mem_singleton.mp (List.mem_of_getElem? found)
    refine ⟨0, Nat.zero_le _, fun j m other => ?_⟩
    rcases Nat.lt_or_ge j ns.length with lt' | ge'
    · rw [List.getElem?_append_left lt'] at other
      exact iff_of_true (below m (List.mem_of_getElem? other)).1 (by omega)
    · have last := (List.getElem?_eq_some_iff.mp other).1
      rw [List.length_append, List.length_singleton] at last
      rw [List.getElem?_append_right ge'] at other
      cases List.mem_singleton.mp (List.mem_of_getElem? other)
      exact iff_of_true ⟨rfl, List.prefix_refl _⟩ (by omega)

/-- Only the places of the nodes matter. -/
theorem Grouped.congr {ns ms : List Node} (hn : Grouped ns)
    (same : ns.map (fun n => (n.document, n.pointer)) =
      ms.map fun m => (m.document, m.pointer)) : Grouped ms := by
  have source {i : Nat} {m : Node} (found : ms[i]? = some m) :
      ∃ n, ns[i]? = some n ∧ n.document = m.document ∧ n.pointer = m.pointer := by
    have place := congrArg (fun places => places[i]?) same
    rw [List.getElem?_map, List.getElem?_map, found, Option.map_some,
      Option.map_eq_some_iff] at place
    obtain ⟨n, found', eq⟩ := place
    exact ⟨n, found', Prod.mk.inj eq⟩
  intro i m found
  obtain ⟨n, found', document, pointer⟩ := source found
  obtain ⟨first, le, block⟩ := hn i n found'
  refine ⟨first, le, fun j k other => ?_⟩
  obtain ⟨l, other', document', pointer'⟩ := source other
  rw [← block j l other', Node.Under, Node.Under, document, document', pointer, pointer']

/-- No place is at or below one of the others. -/
def Separate (places more : Set Pointer) : Prop :=
  ∀ p ∈ places, ∀ q ∈ more, ¬p <+: q ∧ ¬q <+: p

theorem separate_below {p q : Pointer} (apart : Disjoint (below p) (below q)) :
    Separate (below p) (below q) := by
  rw [Set.disjoint_left] at apart
  exact fun a ha b hb => ⟨fun le => apart (List.IsPrefix.trans ha le) hb,
    fun le => apart ha (List.IsPrefix.trans hb le)⟩

theorem separate_iUnion {α : Type} {xs : List α} {places : Set Pointer} {at' : α → Set Pointer}
    (each : ∀ x ∈ xs, Separate places (at' x)) : Separate places (⋃ x ∈ xs, at' x) := by
  intro p hp q hq
  obtain ⟨x, mem, hq⟩ := Set.mem_iUnion₂.mp hq
  exact each x mem p hp q hq

theorem Separate.symm {places more : Set Pointer} (h : Separate places more) :
    Separate more places := fun p hp q hq => (h q hq p hp).symm

theorem separate_inside (pointer : Pointer) {keywords others : List String}
    (apart : ∀ k ∈ keywords, k ∉ others) :
    Separate (inside pointer keywords) (inside pointer others) := by
  refine separate_iUnion fun l mem' => (separate_iUnion fun k mem => ?_).symm
  exact separate_below (disjoint_below fun eq => apart k mem (eq ▸ mem'))

/-- A successful loading step adds nodes of one document in groups, at places of a set, with the
references of their schemas. -/
def Lays {α : Type} (document : String) (places : Set Pointer) (x : Load α) : Prop :=
  ∀ ⦃g g' a⦄, x g = .ok (a, g') → ∃ news, g'.nodes.toList = g.nodes.toList ++ news ∧
    Grouped news ∧ ∀ n ∈ news, n.document = document ∧ n.pointer ∈ places ∧ n.Cites

section Lays

variable {α β : Type} {document : String} {places more : Set Pointer}

theorem Lays.pure (a : α) : Lays document places (pure a) := by
  intro g g' a' h
  cases h
  exact ⟨[], (List.append_nil _).symm, grouped_nil, List.forall_mem_nil _⟩

theorem Lays.fail (e : SchemaError) : Lays document places (fail e : Load α) :=
  fun _ _ _ h => absurd h Outcome.throw_run_ne_ok

theorem Lays.mono {x : Load α} (hx : Lays document places x) (sub : places ⊆ more) :
    Lays document more x := by
  intro g g' a h
  obtain ⟨news, grows, grouped, each⟩ := hx h
  exact ⟨news, grows, grouped, fun n mem =>
    ⟨(each n mem).1, sub (each n mem).2.1, (each n mem).2.2⟩⟩

theorem Lays.map {x : Load α} (f : α → β) (hx : Lays document places x) :
    Lays document places (f <$> x) := by
  intro g g' b h
  obtain ⟨a, run, rfl⟩ := Outcome.map_run_eq_ok.mp h
  exact hx run

theorem Lays.bind {x : Load α} {f : α → Load β} (hx : Lays document places x)
    (hf : ∀ a, Lays document more (f a)) (apart : Separate places more) :
    Lays document (places ∪ more) (x >>= f) := by
  intro g g' b h
  obtain ⟨a, g₁, run, h⟩ := Outcome.bind_run_eq_ok.mp h
  obtain ⟨news, grows, grouped, each⟩ := hx run
  obtain ⟨later, grows', grouped', each'⟩ := hf a h
  refine ⟨news ++ later, by rw [grows', grows, List.append_assoc],
    grouped.append grouped' fun n mem m mem' => ?_, fun n mem => ?_⟩
  · have separate := apart _ (each n mem).2.1 _ (each' m mem').2.1
    exact ⟨fun under => separate.1 under.2, fun under => separate.2 under.2⟩
  · rcases List.mem_append.mp mem with mem | mem
    · exact ⟨(each n mem).1, .inl (each n mem).2.1, (each n mem).2.2⟩
    · exact ⟨(each' n mem).1, .inr (each' n mem).2.1, (each' n mem).2.2⟩

theorem Lays.mapM {f : α → Load β} {at' : α → Set Pointer} {xs : List α}
    (each : ∀ x ∈ xs, Lays document (at' x) (f x))
    (apart : xs.Pairwise fun x y => Separate (at' x) (at' y)) :
    Lays document (⋃ x ∈ xs, at' x) (xs.mapM f) := by
  induction xs with
  | nil =>
    rw [List.mapM_nil]
    exact .pure []
  | cons x xs ih =>
    rw [List.forall_mem_cons] at each
    obtain ⟨first, rest⟩ := List.pairwise_cons.mp apart
    rw [List.mapM_cons]
    refine (each.1.bind (fun y => ?_) (separate_iUnion first)).mono ?_
    · rw [← map_eq_pure_bind]
      exact (ih each.2 rest).map _
    · intro pointer mem
      simpa using mem

end Lays

/-- A step that adds what stands inside a schema, in groups below keywords, and then its node. -/
def Closes (document : String) (pointer : Pointer) (keywords : List String) (x : Load Nat) : Prop :=
  ∀ ⦃g g' i⦄, x g = .ok (i, g') → ∃ news n, g'.nodes.toList = g.nodes.toList ++ (news ++ [n]) ∧
    Grouped news ∧
    (∀ m ∈ news, m.document = document ∧ m.pointer ∈ inside pointer keywords ∧ m.Cites) ∧
    n.document = document ∧ n.pointer = pointer ∧ n.Cites

theorem place_closes {n : Node} (cites : n.Cites) : Closes n.document n.pointer [] (place n) := by
  intro g g' i h
  cases h
  exact ⟨[], n, Array.toList_push, grouped_nil, List.forall_mem_nil _, rfl, rfl, cites⟩

theorem readKeywords_cites {document : String} {pointer : Pointer} {schema : Json}
    {members : Assoc Json} {n : Node}
    (h : readKeywords document pointer schema members = .ok n) :
    members.get? "$ref" = n.reference.map fun r => .string r.raw := by
  rw [readKeywords] at h
  split at h
  · split at h <;> cases h
    all_goals assumption
  · split at h <;> cases h
    all_goals assumption
  · cases h

section Closes

variable {document : String} {pointer : Pointer} {keywords others : List String}

theorem Closes.lift_bind {α : Type} {x : Except SchemaError α} {f : α → Load Nat}
    (hf : ∀ a, x = .ok a → Closes document pointer keywords (f a)) :
    Closes document pointer keywords (liftM x >>= f) := by
  intro g g' i h
  obtain ⟨a, g₁, run, h⟩ := Outcome.bind_run_eq_ok.mp h
  obtain ⟨read, rfl⟩ := Outcome.lift_run_eq_ok.mp run
  exact hf a read h

/-- The schemas below some keywords come before those below others. -/
theorem Closes.bind {α : Type} {x : Load α} {f : α → Load Nat}
    (hx : Lays document (inside pointer keywords) x)
    (hf : ∀ a, Closes document pointer others (f a)) (apart : ∀ k ∈ keywords, k ∉ others) :
    Closes document pointer (keywords ++ others) (x >>= f) := by
  have first : inside pointer keywords ⊆ inside pointer (keywords ++ others) :=
    Set.biUnion_subset_biUnion_left fun k mem => List.mem_append_left _ mem
  have second : inside pointer others ⊆ inside pointer (keywords ++ others) :=
    Set.biUnion_subset_biUnion_left fun k mem => List.mem_append_right _ mem
  intro g g' i h
  obtain ⟨a, g₁, run, h⟩ := Outcome.bind_run_eq_ok.mp h
  obtain ⟨news, grows, grouped, each⟩ := hx run
  obtain ⟨later, n, grows', grouped', each', own⟩ := hf a h
  refine ⟨news ++ later, n, by rw [grows', grows]; simp only [List.append_assoc],
    grouped.append grouped' fun m mem m' mem' => ?_, fun m mem => ?_, own⟩
  · have separate := separate_inside pointer apart _ (each m mem).2.1 _ (each' m' mem').2.1
    exact ⟨fun under => separate.1 under.2, fun under => separate.2 under.2⟩
  · rcases List.mem_append.mp mem with mem | mem
    · exact ⟨(each m mem).1, first (each m mem).2.1, (each m mem).2.2⟩
    · exact ⟨(each' m mem).1, second (each' m mem).2.1, (each' m mem).2.2⟩

theorem Closes.bind_cons {α : Type} {k : String} {x : Load α} {f : α → Load Nat}
    (hx : Lays document (inside pointer [k]) x)
    (hf : ∀ a, Closes document pointer others (f a)) (apart : k ∉ others) :
    Closes document pointer (k :: others) (x >>= f) :=
  .bind hx hf (List.forall_mem_singleton.mpr apart)

/-- The node of a schema ends the group of everything inside it. -/
theorem Closes.lays {x : Load Nat} (hx : Closes document pointer keywords x) :
    Lays document (below pointer) x := by
  intro g g' i h
  obtain ⟨news, n, grows, grouped, each, document, rfl, cites⟩ := hx h
  refine ⟨news ++ [n], grows, grouped.concat fun m mem => ⟨⟨?_, ?_⟩, fun above => ?_⟩,
    fun m mem => ?_⟩
  · exact (each m mem).1.trans document.symm
  · exact inside_subset_below _ _ (each m mem).2.1
  · obtain ⟨k, -, lower⟩ := Set.mem_iUnion₂.mp (each m mem).2.1
    have longer := List.IsPrefix.length_le (List.IsPrefix.trans lower above.2)
    rw [List.length_append, List.length_singleton] at longer
    omega
  · rcases List.mem_append.mp mem with mem | mem
    · exact ⟨(each m mem).1, inside_subset_below _ _ (each m mem).2.1, (each m mem).2.2⟩
    · cases List.mem_singleton.mp mem
      exact ⟨document, List.prefix_refl _, cites⟩

end Closes

section Children

variable {document : String} {visit : Pointer → Json → Load Nat}
  (inner : ∀ pointer v, v.Sorted → Lays document (below pointer) (visit pointer v))

include inner

theorem visitMembers_lays {pointer : Pointer} {keyword : String} {v : Option Json}
    (sorted : ∀ w, v = some w → w.Sorted) :
    Lays document (inside pointer [keyword]) (visitMembers visit pointer keyword v) := by
  rw [visitMembers.eq_def, ← below_eq_inside]
  split
  · next members =>
    obtain ⟨keys, each⟩ := Json.sorted_object.mp (sorted _ rfl)
    have member (p) (mem : p ∈ members) : Lays document (below (pointer ++ [keyword] ++ [p.1]))
        (do return (p.1, ← visit (pointer ++ [keyword, p.1]) p.2) : Load (String × Nat)) := by
      rw [List.append_assoc, List.singleton_append, ← map_eq_pure_bind]
      exact (inner _ _ (each p mem)).map _
    have apart : members.Pairwise fun p q => Separate (below (pointer ++ [keyword] ++ [p.1]))
        (below (pointer ++ [keyword] ++ [q.1])) :=
      List.Pairwise.imp (fun lt => separate_below (disjoint_below (String.ne_of_lt lt))) keys
    exact (Lays.mapM member apart).mono
      (Set.iUnion₂_subset fun p _ => below_append_subset _ _)
  · exact .pure _

theorem visitBranches_lays {pointer : Pointer} {keyword : String} {v : Option Json}
    (sorted : ∀ w, v = some w → w.Sorted) :
    Lays document (inside pointer [keyword])
      (visitBranches visit document pointer keyword v) := by
  rw [visitBranches.eq_def, ← below_eq_inside]
  split
  · next schemas =>
    have each := Json.sorted_array.mp (sorted _ rfl)
    have branch (p) (mem : p ∈ schemas.zipIdx) :
        Lays document (below (pointer ++ [keyword] ++ [toString p.2]))
          (visit (pointer ++ [keyword, toString p.2]) p.1) := by
      rw [List.append_assoc, List.singleton_append]
      exact inner _ _ (each _ (List.mem_of_getElem? (List.mem_zipIdx_iff_getElem?.mp mem)))
    have distinct : schemas.zipIdx.Pairwise fun p q => p.2 ≠ q.2 := by
      rw [← List.pairwise_map, List.zipIdx_map_snd]
      exact List.nodup_range'
    have apart : schemas.zipIdx.Pairwise fun p q =>
        Separate (below (pointer ++ [keyword] ++ [toString p.2]))
          (below (pointer ++ [keyword] ++ [toString q.2])) :=
      List.Pairwise.imp (fun ne => separate_below (disjoint_below fun eq =>
        ne (Text.toString_injective eq))) distinct
    exact (Lays.mapM branch apart).mono
      (Set.iUnion₂_subset fun p _ => below_append_subset _ _)
  · exact .fail _
  · exact .pure _

theorem visitItems_lays {pointer : Pointer} {v : Option Json}
    (sorted : ∀ w, v = some w → w.Sorted) :
    Lays document (inside pointer ["items"]) (visitItems visit pointer v) := by
  rw [visitItems.eq_def, ← below_eq_inside]
  split
  · exact (inner _ _ (sorted _ rfl)).map _
  · exact (inner _ _ (sorted _ rfl)).map _
  · exact .pure _

theorem visitAdditional_lays {pointer : Pointer} {members : Assoc Json}
    (sorted : ∀ key w, members.get? key = some w → w.Sorted) :
    Lays document (inside pointer ["additionalProperties", "patternProperties"])
      (visitAdditional visit pointer members) := by
  rw [visitAdditional]
  split
  · next schema found =>
    refine ((inner _ _ (sorted _ _ found)).map _).mono ?_
    exact Set.subset_biUnion_of_mem (u := fun k => below (pointer ++ [k])) List.mem_cons_self
  · rw [← map_eq_pure_bind]
    refine ((visitMembers_lays inner (sorted "patternProperties")).map _).mono ?_
    exact Set.biUnion_subset_biUnion_left (List.subset_cons_self _ _)

theorem visitKeywords_closes {pointer : Pointer} {schema : Json} {members : Assoc Json}
    (sorted : ∀ key w, members.get? key = some w → w.Sorted)
    (same : ∀ key, members.get? key = schema.get? key) :
    Closes document pointer ["definitions", "$defs", "properties", "items",
      "additionalProperties", "patternProperties", "allOf", "oneOf", "anyOf"]
      (visitKeywords visit document pointer schema members) := by
  rw [visitKeywords]
  refine .lift_bind fun keywords read => .lift_bind fun declared _ => ?_
  refine .bind_cons (visitMembers_lays inner (sorted _)) (fun _ => ?_) (by decide)
  refine .bind_cons (visitMembers_lays inner (sorted _)) (fun _ => ?_) (by decide)
  refine .bind_cons (visitMembers_lays inner (sorted _)) (fun properties => ?_) (by decide)
  refine .bind_cons (visitItems_lays inner (sorted _)) (fun items => ?_) (by decide)
  refine .bind (visitAdditional_lays inner sorted) (fun additional => ?_) (by decide)
  refine .bind_cons (visitBranches_lays inner (sorted _)) (fun allOf => ?_) (by decide)
  refine .bind_cons (visitBranches_lays inner (sorted _)) (fun oneOf => ?_) (by decide)
  refine .bind_cons (visitBranches_lays inner (sorted _)) (fun anyOf => ?_) (by decide)
  refine .lift_bind fun kind _ => ?_
  -- the node itself, which only now is placed
  obtain ⟨rfl, rfl⟩ := readKeywords_place read
  have cites : keywords.Cites := by
    rw [Node.Cites, readKeywords_schema read, ← same]
    exact readKeywords_cites read
  exact place_closes
    (n := { keywords with properties, items, additional, allOf, oneOf, anyOf, kind }) cites

end Children

theorem visit_lays {document : String} (depth : Nat) (pointer : Pointer) (v : Json)
    (sorted : v.Sorted) : Lays document (below pointer) (visit document depth pointer v) := by
  induction depth generalizing pointer v with
  | zero =>
    rw [visit.eq_def]
    exact .fail _
  | succ depth ih =>
    cases v with
    | object members =>
      have members := (Json.sorted_object.mp sorted).2
      rw [visit]
      have sorted (key : String) (w : Json) (found : Assoc.get? _ key = some w) : w.Sorted :=
        members _ (Assoc.mem_of_get? found)
      exact (visitKeywords_closes ih sorted fun key => rfl).lays
    | bool b =>
      rw [visit]
      have sorted (key : String) (w : Json) (found : Assoc.get? [] key = some w) : w.Sorted := by
        cases found
      exact (visitKeywords_closes ih sorted fun key => rfl).lays
    | null | number _ | string _ | array _ =>
      rw [visit.eq_def]
      exact .fail _

theorem loadDocument_lays (name text : String) :
    Lays name (below []) (loadDocument name text) := by
  rw [loadDocument]
  split
  · exact .fail _
  · next v parsed =>
    intro g g' u h
    obtain ⟨root, g₁, run, h⟩ := Outcome.bind_run_eq_ok.mp h
    obtain ⟨news, grows, laid⟩ := visit_lays _ _ _ (Json.parseBytes_sorted parsed) run
    cases h
    exact ⟨news, grows, laid⟩

theorem loadDocuments_grouped {documents : Assoc String} (once : documents.keys.Nodup)
    {g g' : Graph} {u : Unit} (h : (documents.forM fun p => loadDocument p.1 p.2) g = .ok (u, g')) :
    ∃ news, g'.nodes.toList = g.nodes.toList ++ news ∧ Grouped news ∧
      ∀ n ∈ news, n.document ∈ documents.keys ∧ n.Cites := by
  induction documents generalizing g with
  | nil =>
    cases h
    exact ⟨[], (List.append_nil _).symm, grouped_nil, List.forall_mem_nil _⟩
  | cons p documents ih =>
    rw [List.forM_eq_forM, List.forM_cons] at h
    obtain ⟨_, g₁, run, h⟩ := Outcome.bind_run_eq_ok.mp h
    obtain ⟨other, once⟩ := List.nodup_cons.mp once
    obtain ⟨news, grows, grouped, each⟩ := loadDocument_lays p.1 p.2 run
    obtain ⟨later, grows', grouped', each'⟩ := ih once h
    refine ⟨news ++ later, by rw [grows', grows, List.append_assoc],
      grouped.append grouped' fun n mem m mem' => ?_, fun n mem => ?_⟩
    · have differ : n.document ≠ m.document := by
        rw [(each n mem).1]
        exact fun same => other (same ▸ (each' m mem').1)
      exact ⟨fun under => differ under.1.symm, fun under => differ under.1⟩
    · rcases List.mem_append.mp mem with mem | mem
      · exact ⟨List.mem_cons.mpr (.inl (each n mem).1), (each n mem).2.2⟩
      · exact ⟨List.mem_cons_of_mem _ (each' n mem).1, (each' n mem).2⟩

/-- Linking gives a node's reference a target and changes nothing else. -/
theorem link_reference {g : Graph} {n n' : Node} (h : g.link n = .ok n') :
    (n'.reference.map fun r => Json.string r.raw) = n.reference.map (fun r => .string r.raw) ∧
      ∀ r, n'.reference = some r → ∃ target, r.target = some target := by
  rw [link] at h
  split at h
  · next absent =>
    cases h
    refine ⟨rfl, fun r reference => ?_⟩
    rw [absent] at reference
    cases reference
  · next r' found =>
    split at h
    · next target _ =>
      cases h
      refine ⟨by rw [found]; rfl, fun r reference => ?_⟩
      cases reference
      exact ⟨target, rfl⟩
    · cases h

theorem grouped_of_load {b : Bundle} {g : Graph} (h : load b = .ok g)
    (once : b.documents.keys.Nodup) : Grouped g.nodes.toList ∧
      ∀ n ∈ g.nodes.toList, n.Cites ∧ ∀ r, n.reference = some r →
        ∃ target, r.target = some target := by
  obtain ⟨g₀, read, -, each⟩ := exists_readAll_of_load h
  obtain ⟨u, read⟩ := readAll_eq_ok read
  obtain ⟨news, grows, grouped, cites⟩ := loadDocuments_grouped once read
  have all : g₀.nodes.toList = news := grows
  rw [all] at each
  refine ⟨grouped.congr (Outcome.map_eq_map_iff.mpr ⟨each.length_eq, fun p mem => ?_⟩),
    fun n mem => ?_⟩
  · obtain ⟨reference, eq⟩ := link_eq (List.forall₂_zip each mem)
    rw [eq]
  · obtain ⟨m, mem⟩ := Outcome.exists_mem_zip_right each.length_eq mem
    have linked := List.forall₂_zip each mem
    obtain ⟨raws, targets⟩ := link_reference linked
    obtain ⟨reference, eq⟩ := link_eq linked
    refine ⟨?_, targets⟩
    rw [Node.Cites, raws, ← (cites m (List.of_mem_zip mem).1).2, eq]

/-- The nodes of a graph form a forest in postorder, with the targets of references besides. -/
structure Postorder (g : Graph) : Prop where
  references : ∀ i n, g.node? i = some n →
    n.schema.get? "$ref" = n.reference.map fun r => .string r.raw
  targets : ∀ i n, g.node? i = some n → ∀ r, n.reference = some r →
    ∃ target, r.target = some target ∧ target < g.size
  children : ∀ i n, g.node? i = some n → ∀ child ∈ n.children, child < i ∧ i < g.size
  parents : ∀ i n, g.node? i = some n → ∀ j m, g.node? j = some m →
    ∀ child, child ∈ n.children → child ∈ m.children → i = j
  /-- What stands at a place and below it are the nodes from some first one to that at the place. -/
  blocks : ∀ i n, g.node? i = some n → ∃ first ≤ i, ∀ j m, g.node? j = some m →
    (m.document = n.document ∧ n.pointer <+: m.pointer ↔ first ≤ j ∧ j ≤ i)

theorem Planted.parent_unique {g : Graph} (planted : g.Planted []) {i j : Nat} {n m : Node}
    (here : g.node? i = some n) (there : g.node? j = some m) {child : Nat}
    (own : child ∈ n.children) (other : child ∈ m.children) : i = j := by
  have once := planted.once
  rw [List.append_nil, List.nodup_flatMap] at once
  rw [node?, ← Array.getElem?_toList, List.getElem?_eq_some_iff] at here there
  obtain ⟨lt, rfl⟩ := here
  obtain ⟨lt', rfl⟩ := there
  have disjoint := List.pairwise_iff_getElem.mp once.2
  rcases Nat.lt_trichotomy i j with less | same | more
  · exact absurd other (disjoint i j lt lt' less own)
  · exact same
  · exact absurd own (disjoint j i lt' lt more other)

/-- A loaded graph is a forest in postorder. -/
theorem postorder_of_load {b : Bundle} {g : Graph} (load : Graph.load b = .ok g)
    (once : b.documents.keys.Nodup) : g.Postorder := by
  obtain ⟨loaded, -⟩ := loaded_of_load load
  have planted := planted_of_load load
  obtain ⟨grouped, each⟩ := grouped_of_load load once
  have member {i n} (here : g.node? i = some n) : n ∈ g.nodes.toList :=
    Array.mem_toList_iff.mpr (Array.mem_of_getElem? here)
  refine ⟨fun i n here => (each n (member here)).1, fun i n here r reference => ?_,
    fun i n here child mem => ?_,
    fun i n here j m there child own other => planted.parent_unique here there own other,
    fun i n here => ?_⟩
  · obtain ⟨target, leads⟩ := (each n (member here)).2 r reference
    refine ⟨target, leads, loaded.targets n (member here) target ?_⟩
    rw [reference]
    exact leads
  · exact ⟨planted.descends i n here child mem, (Array.getElem?_eq_some_iff.mp here).1⟩
  · rw [node?, ← Array.getElem?_toList] at here
    obtain ⟨first, le, block⟩ := grouped i n here
    refine ⟨first, le, fun j m there => ?_⟩
    rw [node?, ← Array.getElem?_toList] at there
    exact block j m there

set_option maxRecDepth 100000 in
/-- Two documents that refer to each other, with schemas below most keywords. -/
theorem postorder_of_load_mutual :
    let leaf : Json := .object []
    let patterns : Json := .object [("patternProperties", .object [("^x", leaf), ("^y", leaf)])]
    let branch : Json := .object [("$ref", .string "b.json#/definitions/B")]
    let first : Json := .object [("allOf", .array [branch, .object [("items", leaf)]]),
      ("properties", .object [("p", .object [("$ref", .string "#")]), ("q", patterns)])]
    let inner : Json := .object
      [("additionalProperties", leaf), ("anyOf", .array [.object [("$ref", .string "a.json")]])]
    let second : Json := .object [("definitions", .object [("B", inner)]), ("oneOf", .array [leaf])]
    let b : Bundle := ⟨[("a.json", first.render), ("b.json", second.render)]⟩
    b.documents.keys.Nodup ∧ ∃ g, Graph.load b = .ok g ∧ g.size = 13 ∧ g.Postorder := by
  intro leaf patterns branch first inner second b
  have size : (Graph.load b).toOption.map Graph.size = some 13 := by
    rw [load_eq_loadBytes]
    decide +kernel
  obtain ⟨g, loaded, size⟩ := Option.map_eq_some_iff.mp size
  have load := Outcome.toOption_eq_some.mp loaded
  have once : b.documents.keys.Nodup := by decide
  exact ⟨once, g, load, size, postorder_of_load load once⟩

end Graph

end TypedArchive
