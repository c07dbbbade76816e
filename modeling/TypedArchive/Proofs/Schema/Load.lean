import Mathlib.Data.Set.Lattice
import Mathlib.Order.CompletePartialOrder
import TypedArchive.Proofs.Json.Sorted
import TypedArchive.Proofs.Schema.Identifier
import TypedArchive.Proofs.Text.Numeral
import TypedArchive.Schema.Graph

/-! What loading adds to a graph: nodes at distinct places, entered under their identifiers, with
properties in order; in the end every reference has a target. -/

namespace TypedArchive.Graph

/-- Whatever a graph names is one of its nodes. -/
structure Within (g : Graph) : Prop where
  byId : ∀ p ∈ g.byId, p.2 < g.size
  roots : ∀ p ∈ g.roots, p.2 < g.size
  anchors : ∀ p ∈ g.anchors, p.2 < g.size

theorem Within.push {g : Graph} (h : g.Within) (n : Node) : (g.push n).Within := by
  have size : (g.push n).size = g.size + 1 := Array.size_push ..
  have earlier {i : Nat} (lt : i < g.size) : i < (g.push n).size := size ▸ Nat.lt_succ_of_lt lt
  have own : g.size < (g.push n).size := size ▸ Nat.lt_succ_self _
  refine ⟨fun p mem => ?_, fun p mem => earlier (h.roots p mem), fun p mem => ?_⟩
  · rcases Assoc.mem_insert mem with rfl | mem
    · exact own
    · exact earlier (h.byId p mem)
  · cases anchor : n.anchor with
    | none =>
      simp only [Graph.push, anchor] at mem
      exact earlier (h.anchors p mem)
    | some text =>
      simp only [Graph.push, anchor] at mem
      split at mem
      · exact earlier (h.anchors p mem)
      · rcases List.mem_append.mp mem with mem | mem
        · exact earlier (h.anchors p mem)
        · cases List.mem_singleton.mp mem
          exact own

/-- A graph has further nodes, each entered under its identifier. -/
structure Grows (news : List Node) (g g' : Graph) : Prop where
  nodes : g'.nodes.toList = g.nodes.toList ++ news
  byId : g'.byId = g.byId.insertAll ((news.map Node.id).zipIdx g.size)
  within : g.Within → g'.Within

theorem Grows.refl (g : Graph) : Grows [] g g := ⟨(List.append_nil _).symm, rfl, id⟩

theorem Grows.trans {news more : List Node} {g g₁ g' : Graph} (h : Grows news g g₁)
    (h' : Grows more g₁ g') : Grows (news ++ more) g g' where
  nodes := by rw [h'.nodes, h.nodes, List.append_assoc]
  byId := by
    have size : g₁.size = g.size + (news.map Node.id).length := by
      rw [Graph.size, ← Array.length_toList, h.nodes, List.length_append, List.length_map]
      rfl
    rw [h'.byId, h.byId, List.map_append, List.zipIdx_append, ← size]
    exact (List.foldl_append ..).symm
  within start := h'.within (h.within start)

theorem push_grows (g : Graph) (n : Node) : Grows [n] g (g.push n) :=
  ⟨Array.toList_push, rfl, fun start => start.push n⟩

/-- What holds of every node when it is placed. -/
structure Placed (n : Node) : Prop where
  properties : n.properties.Sorted
  reference : n.kind = .ref → n.reference.isSome = true

/-- A successful loading step adds nodes of one document, at different places of a set, and
something holds of its result. -/
def Adds {α : Type} (document : String) (places : Set Pointer) (x : Load α) (post : α → Prop) :
    Prop :=
  ∀ ⦃g g' a⦄, x g = .ok (a, g') → post a ∧ ∃ news, Grows news g g' ∧
    (news.map Node.pointer).Nodup ∧
    ∀ n ∈ news, n.document = document ∧ n.pointer ∈ places ∧ Placed n

section Adds

variable {α β : Type} {document : String} {places more : Set Pointer} {post : α → Prop}
  {post' : β → Prop}

theorem Adds.pure {a : α} (holds : post a) : Adds document places (pure a) post := by
  intro g g' a' h
  cases h
  exact ⟨holds, [], .refl g, List.nodup_nil, List.forall_mem_nil _⟩

theorem Adds.fail (e : SchemaError) : Adds document places (fail e) post :=
  fun _ _ _ h => absurd h Outcome.throw_run_ne_ok

theorem Adds.lift (x : Except SchemaError α) :
    Adds document ∅ (liftM x) fun a => x = .ok a := by
  intro g g' a h
  obtain ⟨read, rfl⟩ := Outcome.lift_run_eq_ok.mp h
  exact ⟨read, [], .refl g, List.nodup_nil, List.forall_mem_nil _⟩

theorem Adds.mono {x : Load α} (hx : Adds document places x post) (sub : places ⊆ more) :
    Adds document more x post := by
  intro g g' a h
  obtain ⟨holds, news, grows, distinct, each⟩ := hx h
  exact ⟨holds, news, grows, distinct, fun n mem =>
    ⟨(each n mem).1, sub (each n mem).2.1, (each n mem).2.2⟩⟩

theorem Adds.imp {x : Load α} {weaker : α → Prop} (hx : Adds document places x post)
    (weaken : ∀ a, post a → weaker a) : Adds document places x weaker :=
  fun _ _ a h => ⟨weaken a (hx h).1, (hx h).2⟩

/-- Steps at different places follow one another. -/
theorem Adds.bind {x : Load α} {f : α → Load β} (hx : Adds document places x post)
    (hf : ∀ a, post a → Adds document more (f a) post') (apart : Disjoint places more) :
    Adds document (places ∪ more) (x >>= f) post' := by
  intro g g' b h
  obtain ⟨a, g₁, run, h⟩ := Outcome.bind_run_eq_ok.mp h
  obtain ⟨holds, news, grows, distinct, each⟩ := hx run
  obtain ⟨holds', news', grows', distinct', each'⟩ := hf a holds h
  refine ⟨holds', news ++ news', grows.trans grows', ?_, fun n mem => ?_⟩
  · rw [List.map_append]
    refine distinct.append distinct' fun pointer mem mem' => ?_
    obtain ⟨n, hn, rfl⟩ := List.mem_map.mp mem
    obtain ⟨n', hn', eq⟩ := List.mem_map.mp mem'
    exact Set.disjoint_left.mp apart (each n hn).2.1 (eq ▸ (each' n' hn').2.1)
  · rcases List.mem_append.mp mem with mem | mem
    · exact ⟨(each n mem).1, Or.inl (each n mem).2.1, (each n mem).2.2⟩
    · exact ⟨(each' n mem).1, Or.inr (each' n mem).2.1, (each' n mem).2.2⟩

theorem Adds.lift_bind {x : Except SchemaError α} {f : α → Load β}
    (hf : ∀ a, x = .ok a → Adds document places (f a) post') :
    Adds document places (liftM x >>= f) post' :=
  ((Adds.lift x).bind hf (Set.empty_disjoint _)).mono (Set.empty_union _).subset

theorem Adds.bind_pure {x : Load α} {f : α → β} (hx : Adds document places x post)
    (holds : ∀ a, post a → post' (f a)) :
    Adds document places (do return f (← x)) post' :=
  (hx.bind (fun a h => .pure (holds a h)) (Set.disjoint_empty _)).mono (Set.union_empty _).subset

theorem Adds.map {x : Load α} (f : α → β) (hx : Adds document places x post) :
    Adds document places (f <$> x) fun _ => True := by
  intro g g' b h
  obtain ⟨a, run, rfl⟩ := Outcome.map_run_eq_ok.mp h
  exact ⟨trivial, (hx run).2⟩

/-- A loop whose steps are at different places. -/
theorem Adds.mapM {f : α → Load β} {at' : α → Set Pointer} {R : α → β → Prop} {xs : List α}
    (each : ∀ x ∈ xs, Adds document (at' x) (f x) (R x))
    (apart : xs.Pairwise fun x y => Disjoint (at' x) (at' y)) :
    Adds document (⋃ x ∈ xs, at' x) (xs.mapM f) fun ys => List.Forall₂ R xs ys := by
  induction xs with
  | nil =>
    rw [List.mapM_nil]
    exact .pure .nil
  | cons x xs ih =>
    rw [List.forall_mem_cons] at each
    obtain ⟨first, rest⟩ := List.pairwise_cons.mp apart
    have later := ih each.2 rest
    have split : Disjoint (at' x) (⋃ y ∈ xs, at' y) :=
      Set.disjoint_iUnion₂_right.mpr first
    rw [List.mapM_cons]
    refine (each.1.bind (fun y hy => later.bind_pure fun ys hys => ?_) split).mono ?_
    · exact .cons hy hys
    · intro pointer mem
      simpa using mem

end Adds

/-- The places at a pointer and below it. -/
def below (pointer : Pointer) : Set Pointer := {q | pointer <+: q}

theorem below_append_subset (pointer more : Pointer) : below (pointer ++ more) ⊆ below pointer :=
  fun _ mem => List.IsPrefix.trans (List.prefix_append pointer more) mem

theorem disjoint_below {pointer : Pointer} {key other : String} (ne : key ≠ other) :
    Disjoint (below (pointer ++ [key])) (below (pointer ++ [other])) := by
  rw [Set.disjoint_left]
  rintro _ ⟨s, rfl⟩ ⟨t, eq⟩
  rw [List.append_assoc, List.append_assoc, List.append_cancel_left_eq, List.singleton_append,
    List.singleton_append, List.cons.injEq] at eq
  exact ne eq.1.symm

theorem disjoint_below_self (pointer : Pointer) (key : String) :
    Disjoint (below (pointer ++ [key])) {pointer} := by
  rw [Set.disjoint_singleton_right]
  intro h
  have := List.IsPrefix.length_le h
  rw [List.length_append, List.length_singleton] at this
  omega

/-- The places below some keywords of a schema. -/
def inside (pointer : Pointer) (keywords : List String) : Set Pointer :=
  ⋃ k ∈ keywords, below (pointer ++ [k])

theorem below_eq_inside (pointer : Pointer) (keyword : String) :
    below (pointer ++ [keyword]) = inside pointer [keyword] := by
  simp [inside]

theorem inside_subset_below (pointer : Pointer) (keywords : List String) :
    inside pointer keywords ⊆ below pointer :=
  Set.iUnion₂_subset fun k _ => below_append_subset pointer [k]

/-- The schemas below some keywords come before those below others and the schema itself. -/
theorem Adds.keywords {α β : Type} {document : String} {pointer : Pointer}
    {keywords others : List String} {x : Load α} {f : α → Load β} {post : α → Prop}
    {post' : β → Prop} (hx : Adds document (inside pointer keywords) x post)
    (hf : ∀ a, post a → Adds document (inside pointer others ∪ {pointer}) (f a) post')
    (apart : ∀ k ∈ keywords, k ∉ others) :
    Adds document (inside pointer (keywords ++ others) ∪ {pointer}) (x >>= f) post' := by
  refine (hx.bind hf (Set.disjoint_union_right.mpr ⟨?_, ?_⟩)).mono ?_
  · refine Set.disjoint_iUnion₂_left.mpr fun k mem => Set.disjoint_iUnion₂_right.mpr ?_
    exact fun l mem' => disjoint_below fun eq => apart k mem (eq ▸ mem')
  · exact Set.disjoint_iUnion₂_left.mpr fun k _ => disjoint_below_self pointer k
  · rw [← Set.union_assoc]
    refine Set.union_subset_union_left _ (Set.union_subset ?_ ?_)
    · exact Set.biUnion_subset_biUnion_left fun k mem => List.mem_append_left _ mem
    · exact Set.biUnion_subset_biUnion_left fun k mem => List.mem_append_right _ mem

theorem place_adds {n : Node} (placed : Placed n) :
    Adds n.document {n.pointer} (place n) fun _ => True := by
  intro g g' index h
  cases h
  exact ⟨trivial, [n], push_grows g n, List.nodup_singleton _,
    List.forall_mem_singleton.mpr ⟨rfl, rfl, placed⟩⟩

theorem readKeywords_place {document : String} {pointer : Pointer} {schema : Json}
    {members : Assoc Json} {n : Node} (h : readKeywords document pointer schema members = .ok n) :
    n.document = document ∧ n.pointer = pointer := by
  rw [readKeywords] at h
  split at h
  · split at h <;> cases h
    all_goals exact ⟨rfl, rfl⟩
  · split at h <;> cases h
    all_goals exact ⟨rfl, rfl⟩
  · cases h

theorem kindOf_ref {n : Node} {declared : Option String} {kind : NodeKind}
    (h : kindOf n declared = .ok kind) (ref : kind = .ref) : n.reference.isSome = true := by
  subst ref
  revert h
  fun_cases kindOf n declared <;> simp_all

section Children

variable {document : String} {visit : Pointer → Json → Load Nat}
  (inner : ∀ pointer v, v.Sorted → Adds document (below pointer) (visit pointer v) fun _ => True)

include inner

theorem visitMembers_adds {pointer : Pointer} {keyword : String} {v : Option Json}
    (sorted : ∀ w, v = some w → w.Sorted) :
    Adds document (inside pointer [keyword]) (visitMembers visit pointer keyword v)
      Assoc.Sorted := by
  rw [visitMembers.eq_def, ← below_eq_inside]
  split
  · next members =>
    obtain ⟨keys, each⟩ := Json.sorted_object.mp (sorted _ rfl)
    have member (p) (mem : p ∈ members) : Adds document (below (pointer ++ [keyword] ++ [p.1]))
        (do return (p.1, ← visit (pointer ++ [keyword, p.1]) p.2) : Load (String × Nat))
        fun child => p.1 = child.1 := by
      rw [List.append_assoc, List.singleton_append]
      exact (inner _ _ (each p mem)).bind_pure fun index _ => rfl
    have apart : members.Pairwise fun p q => Disjoint (below (pointer ++ [keyword] ++ [p.1]))
        (below (pointer ++ [keyword] ++ [q.1])) :=
      List.Pairwise.imp (fun lt => disjoint_below (String.ne_of_lt lt)) keys
    refine ((Adds.mapM member apart).mono (Set.iUnion₂_subset fun p _ => ?_)).imp
      fun children same => ?_
    · exact below_append_subset _ _
    · have same : members.map Prod.fst = children.map Prod.fst :=
        List.forall₂_eq_eq_eq ▸ List.forall₂_map_left_iff.mpr (List.forall₂_map_right_iff.mpr same)
      rw [Assoc.Sorted, ← List.pairwise_map, ← same, List.pairwise_map]
      exact keys
  · exact .pure Assoc.sorted_nil

theorem visitBranches_adds {pointer : Pointer} {keyword : String} {v : Option Json}
    (sorted : ∀ w, v = some w → w.Sorted) :
    Adds document (inside pointer [keyword]) (visitBranches visit document pointer keyword v)
      fun _ => True := by
  rw [visitBranches.eq_def, ← below_eq_inside]
  split
  · next schemas =>
    have each := Json.sorted_array.mp (sorted _ rfl)
    have branch (p) (mem : p ∈ schemas.zipIdx) :
        Adds document (below (pointer ++ [keyword] ++ [toString p.2]))
          (visit (pointer ++ [keyword, toString p.2]) p.1) fun _ => True := by
      rw [List.append_assoc, List.singleton_append]
      exact inner _ _ (each _ (List.mem_of_getElem? (List.mem_zipIdx_iff_getElem?.mp mem)))
    have apart : schemas.zipIdx.Pairwise fun p q =>
        Disjoint (below (pointer ++ [keyword] ++ [toString p.2]))
          (below (pointer ++ [keyword] ++ [toString q.2])) := by
      have distinct : (schemas.zipIdx.map Prod.snd).Nodup := by
        rw [List.zipIdx_map_snd]
        exact List.nodup_range'
      exact List.Pairwise.imp (fun ne => disjoint_below fun eq => ne (Text.toString_injective eq))
        (List.pairwise_map.mp distinct)
    refine ((Adds.mapM branch apart).mono (Set.iUnion₂_subset fun p _ => ?_)).imp fun _ _ => trivial
    exact below_append_subset _ _
  · exact .fail _
  · exact .pure trivial

theorem visitItems_adds {pointer : Pointer} {v : Option Json}
    (sorted : ∀ w, v = some w → w.Sorted) :
    Adds document (inside pointer ["items"]) (visitItems visit pointer v) fun _ => True := by
  rw [visitItems.eq_def, ← below_eq_inside]
  split
  · exact (inner _ _ (sorted _ rfl)).map _
  · exact (inner _ _ (sorted _ rfl)).map _
  · exact .pure trivial

theorem visitAdditional_adds {pointer : Pointer} {members : Assoc Json}
    (sorted : ∀ key w, members.get? key = some w → w.Sorted) :
    Adds document (inside pointer ["additionalProperties", "patternProperties"])
      (visitAdditional visit pointer members) fun _ => True := by
  rw [visitAdditional]
  split
  · next schema found =>
    refine ((inner _ _ (sorted _ _ found)).map _).mono ?_
    exact Set.subset_biUnion_of_mem (u := fun k => below (pointer ++ [k])) List.mem_cons_self
  · refine ((visitMembers_adds inner (sorted "patternProperties")).bind_pure fun _ _ => trivial).mono
      ?_
    exact Set.biUnion_subset_biUnion_left (List.subset_cons_self _ _)

theorem visitKeywords_adds {pointer : Pointer} {schema : Json} {members : Assoc Json}
    (sorted : ∀ key w, members.get? key = some w → w.Sorted) :
    Adds document (below pointer) (visitKeywords visit document pointer schema members)
      fun _ => True := by
  have places : inside pointer ["definitions", "$defs", "properties", "items",
      "additionalProperties", "patternProperties", "allOf", "oneOf", "anyOf"] ∪ {pointer} ⊆
      below pointer :=
    Set.union_subset (inside_subset_below _ _)
      (Set.singleton_subset_iff.mpr (List.prefix_refl pointer))
  rw [visitKeywords]
  refine .lift_bind fun keywords read => .lift_bind fun declared _ => Adds.mono ?_ places
  refine (visitMembers_adds inner (sorted _)).keywords (fun _ _ => ?_) (by decide)
  refine (visitMembers_adds inner (sorted _)).keywords (fun _ _ => ?_) (by decide)
  refine (visitMembers_adds inner (sorted _)).keywords (fun properties ordered => ?_) (by decide)
  refine (visitItems_adds inner (sorted _)).keywords (fun items _ => ?_) (by decide)
  refine (visitAdditional_adds inner sorted).keywords (fun additional _ => ?_) (by decide)
  refine (visitBranches_adds inner (sorted _)).keywords (fun allOf _ => ?_) (by decide)
  refine (visitBranches_adds inner (sorted _)).keywords (fun oneOf _ => ?_) (by decide)
  refine (Adds.keywords (visitBranches_adds inner (sorted _)) (fun anyOf _ => ?_) (by decide) :
    Adds document (inside pointer (["anyOf"] ++ []) ∪ {pointer}) _ _)
  refine (Adds.lift_bind fun kind hkind => ?_).mono Set.subset_union_right
  obtain ⟨rfl, rfl⟩ := readKeywords_place read
  exact place_adds ⟨ordered, kindOf_ref hkind⟩

end Children

theorem visit_adds {document : String} (depth : Nat) (pointer : Pointer) (v : Json)
    (sorted : v.Sorted) :
    Adds document (below pointer) (visit document depth pointer v) fun _ => True := by
  induction depth generalizing pointer v with
  | zero =>
    rw [visit.eq_def]
    exact .fail _
  | succ depth ih =>
    cases v with
    | object members =>
      have members := (Json.sorted_object.mp sorted).2
      rw [visit]
      exact visitKeywords_adds ih fun key w found => members _ (Assoc.mem_of_get? found)
    | bool b =>
      rw [visit]
      exact visitKeywords_adds ih nofun
    | null | number _ | string _ | array _ =>
      rw [visit.eq_def]
      exact .fail _

/-- A loading step gives a node of the graph that it leaves. -/
def GivesNode (x : Load Nat) : Prop := ∀ ⦃g g' i⦄, x g = .ok (i, g') → i < g'.size

theorem GivesNode.bind {α : Type} {x : Load α} {f : α → Load Nat} (hf : ∀ a, GivesNode (f a)) :
    GivesNode (x >>= f) := by
  intro g g' i h
  obtain ⟨a, g₁, -, h⟩ := Outcome.bind_run_eq_ok.mp h
  exact hf a h

theorem place_givesNode (n : Node) : GivesNode (place n) := by
  intro g g' i h
  cases h
  exact Nat.lt_of_lt_of_eq (Nat.lt_succ_self _) (Array.size_push ..).symm

theorem visit_givesNode (document : String) (depth : Nat) (pointer : Pointer) (v : Json) :
    GivesNode (visit document depth pointer v) := by
  have keywords (inner) (schema) (members) :
      GivesNode (visitKeywords inner document pointer schema members) := by
    rw [visitKeywords]
    iterate 11 refine .bind fun _ => ?_
    exact place_givesNode _
  rw [visit.eq_def]
  split
  · exact keywords _ _ _
  · exact keywords _ _ _
  · exact fun _ _ _ h => absurd h Outcome.throw_run_ne_ok

theorem loadDocument_adds (name text : String) :
    Adds name Set.univ (loadDocument name text) fun _ => True := by
  rw [loadDocument]
  split
  · exact .fail _
  · next v parsed =>
    intro g g' u h
    obtain ⟨root, g₁, run, h⟩ := Outcome.bind_run_eq_ok.mp h
    obtain ⟨-, news, grows, distinct, each⟩ := visit_adds _ _ _ (Json.parseBytes_sorted parsed) run
    have lt := visit_givesNode _ _ _ _ run
    cases h
    refine ⟨trivial, news, ⟨grows.nodes, grows.byId, fun start => ?_⟩, distinct, fun n mem =>
      ⟨(each n mem).1, Set.mem_univ _, (each n mem).2.2⟩⟩
    have within := grows.within start
    refine ⟨within.byId, fun p mem => ?_, within.anchors⟩
    rcases Assoc.mem_insert mem with rfl | mem
    · exact lt
    · exact within.roots p mem

/-- The nodes of several documents; without a mark in the names of the documents, no two nodes have
one identifier. -/
theorem loadDocuments_ok {documents : Assoc String} {g g' : Graph} {u : Unit}
    (h : (documents.forM fun p => loadDocument p.1 p.2) g = .ok (u, g')) :
    ∃ news, Grows news g g' ∧ (∀ n ∈ news, n.document ∈ documents.keys ∧ Placed n) ∧
      (documents.keys.Nodup → (∀ name ∈ documents.keys, '#' ∉ name.toList) →
        (news.map Node.id).Nodup) := by
  induction documents generalizing g with
  | nil =>
    cases h
    exact ⟨[], .refl _, List.forall_mem_nil _, fun _ _ => List.nodup_nil⟩
  | cons p documents ih =>
    rw [List.forM_eq_forM, List.forM_cons] at h
    obtain ⟨_, g₁, run, h⟩ := Outcome.bind_run_eq_ok.mp h
    obtain ⟨-, first, grows, distinct, each⟩ := loadDocument_adds p.1 p.2 run
    obtain ⟨rest, grows', each', distinct'⟩ := ih h
    refine ⟨first ++ rest, grows.trans grows', fun n mem => ?_, fun once marks => ?_⟩
    · rcases List.mem_append.mp mem with mem | mem
      · exact ⟨List.mem_cons.mpr (Or.inl (each n mem).1), (each n mem).2.2⟩
      · exact ⟨List.mem_cons_of_mem _ (each' n mem).1, (each' n mem).2⟩
    · obtain ⟨other, once⟩ := List.nodup_cons.mp once
      obtain ⟨mark, marks⟩ := List.forall_mem_cons.mp marks
      rw [List.map_append]
      refine List.Nodup.append ?_ (distinct' once marks) fun id mem mem' => ?_
      · refine List.pairwise_map.mpr ((List.pairwise_map.mp distinct).imp_of_mem ?_)
        intro a b ha hb ne eq
        rw [Node.id, Node.id, (each a ha).1, (each b hb).1] at eq
        exact ne (Node.qualify_injective p.1 eq)
      · obtain ⟨n, hn, rfl⟩ := List.mem_map.mp mem
        obtain ⟨n', hn', eq⟩ := List.mem_map.mp mem'
        have document := (each' n' hn').1
        rw [Node.document_of_qualify (marks _ document) ((each n hn).1 ▸ mark) eq, (each n hn).1]
          at document
        exact other document

theorem Within.resolve_lt {g : Graph} (within : g.Within) {document reference : String} {i : Nat}
    (h : g.resolve document reference = some i) : i < g.size := by
  have anchored {p} {a} (found : g.anchors.find? p = some a) : a.2 < g.size :=
    within.anchors a (List.mem_of_find?_eq_some found)
  rw [Graph.resolve] at h
  split at h
  next name fragment =>
    extract_lets fragment anchor ends at h
    clear_value fragment anchor
    -- The document is found in either of two ways; from there on the way is the same.
    have ends_lt {target : String} (h : ends target = some i) : i < g.size := by
      simp only [ends] at h
      split at h
      · exact within.roots _ (Assoc.mem_of_get? h)
      · exact within.byId _ (Assoc.mem_of_get? h)
      · split at h
        · next found =>
          cases h
          exact anchored found
        · split at h
          · obtain ⟨a, found, rfl⟩ := Option.map_eq_some_iff.mp h
            exact anchored found
          · cases h
    split at h
    all_goals
      obtain ⟨target, -, h⟩ := Option.bind_eq_some_iff.mp h
      exact ends_lt h

theorem link_lt {g : Graph} (within : g.Within) {n n' : Node} (h : g.link n = .ok n') {target : Nat}
    (linked : n'.reference.bind Reference.target = some target) : target < g.size := by
  rw [link] at h
  split at h
  · next none =>
    cases h
    rw [none] at linked
    cases linked
  · split at h
    · next resolved =>
      cases h
      cases linked
      exact within.resolve_lt resolved
    · cases h

theorem link_ok {g : Graph} {n n' : Node} (h : g.link n = .ok n') :
    n'.id = n.id ∧ n'.properties = n.properties ∧ n'.kind = n.kind ∧
      (n.reference.isSome = true → ∃ target, n'.reference.bind Reference.target = some target) := by
  rw [link] at h
  split at h
  · next none =>
    cases h
    refine ⟨rfl, rfl, rfl, fun some => ?_⟩
    rw [none] at some
    cases some
  · split at h
    · next target _ =>
      cases h
      exact ⟨rfl, rfl, rfl, fun _ => ⟨target, rfl⟩⟩
    · cases h

/-- What holds of every loaded graph. -/
structure Loaded (g : Graph) : Prop where
  byId : g.byId = Assoc.ofList (g.nodes.toList.map Node.id).zipIdx
  properties : ∀ n ∈ g.nodes.toList, n.properties.Sorted
  linked : ∀ n ∈ g.nodes.toList, n.kind = .ref →
    ∃ target, n.reference.bind Reference.target = some target
  targets : ∀ n ∈ g.nodes.toList, ∀ target, n.reference.bind Reference.target = some target →
    target < g.size

section Order

variable {g : Graph} (loaded : g.Loaded)

include loaded

theorem Loaded.getElem?_of_mem_byId {p : String × Nat} (mem : p ∈ g.byId) :
    (g.nodes.toList.map Node.id)[p.2]? = some p.1 := by
  rw [loaded.byId] at mem
  exact List.mem_zipIdx_iff_getElem?.mp ((Assoc.mem_insertAll mem).resolve_right List.not_mem_nil)

theorem Loaded.lt_of_mem_inIdOrder {i : Nat} (mem : i ∈ g.inIdOrder) : i < g.size := by
  obtain ⟨p, listed, rfl⟩ := List.mem_map.mp mem
  obtain ⟨lt, -⟩ := List.getElem?_eq_some_iff.mp (loaded.getElem?_of_mem_byId listed)
  rwa [List.length_map, Array.length_toList] at lt

/-- An index has one identifier, so it stands in the order of identifiers once at most. -/
theorem Loaded.inIdOrder_nodup : g.inIdOrder.Nodup := by
  have sorted : g.byId.Sorted := loaded.byId ▸ Assoc.sorted_ofList _
  refine List.Nodup.map_on (fun p hp q hq same => Prod.ext ?_ same) sorted.keys_nodup.of_map
  have first := loaded.getElem?_of_mem_byId hp
  rw [same, loaded.getElem?_of_mem_byId hq] at first
  exact (Option.some.inj first).symm

/-- When identifiers are distinct, their order has every index. -/
theorem Loaded.inIdOrder_perm (ids : (g.nodes.toList.map Node.id).Nodup) :
    g.inIdOrder.Perm (List.range g.size) := by
  have keys : ((g.nodes.toList.map Node.id).zipIdx.map Prod.fst).Nodup := by
    rwa [List.zipIdx_map_fst]
  have perm := (Assoc.ofList_perm keys).map Prod.snd
  rw [List.zipIdx_map_snd, List.length_map, Array.length_toList, ← List.range_eq_range'] at perm
  rw [inIdOrder, Assoc.values, loaded.byId]
  exact perm

end Order

/-- Reads the documents in the order of their names; references lead nowhere yet. -/
def readAll (b : Bundle) : Except SchemaError Graph :=
  Prod.snd <$> (b.documents.forM fun p => loadDocument p.1 p.2).run {}

theorem readAll_eq_ok {b : Bundle} {g : Graph} (h : readAll b = .ok g) :
    ∃ u, (b.documents.forM fun p => loadDocument p.1 p.2) {} = .ok (u, g) := by
  obtain ⟨⟨u, _⟩, run, eq⟩ := Outcome.map_eq_ok.mp h
  subst eq
  exact ⟨u, run⟩

/-- A loaded graph is one that was read, with its nodes linked. -/
theorem exists_readAll_of_load {b : Bundle} {g : Graph} (h : load b = .ok g) :
    ∃ g₀, readAll b = .ok g₀ ∧ g = { g₀ with nodes := g.nodes } ∧
      List.Forall₂ (fun n n' => g₀.link n = .ok n') g₀.nodes.toList g.nodes.toList := by
  rw [load] at h
  obtain ⟨⟨u, g₀⟩, run, h⟩ := Outcome.bind_eq_ok.mp h
  obtain ⟨nodes, linked, h⟩ := Outcome.bind_eq_ok.mp h
  cases h
  rw [Array.mapM_eq_mapM_toList] at linked
  obtain ⟨list, each, eq⟩ := Outcome.map_eq_ok.mp linked
  subst eq
  exact ⟨g₀, Outcome.map_eq_ok.mpr ⟨_, run, rfl⟩, rfl, Outcome.mapM_eq_ok.mp each⟩

theorem loaded_of_load {b : Bundle} {g : Graph} (h : load b = .ok g) :
    g.Loaded ∧ (b.documents.keys.Nodup → (∀ name ∈ b.documents.keys, '#' ∉ name.toList) →
      (g.nodes.toList.map Node.id).Nodup) := by
  obtain ⟨g₀, read, eq, each⟩ := exists_readAll_of_load h
  obtain ⟨u, read⟩ := readAll_eq_ok read
  obtain ⟨news, grows, placed, distinct⟩ := loadDocuments_ok read
  have all : g₀.nodes.toList = news := grows.nodes
  rw [all] at each
  have ids : g.nodes.toList.map Node.id = news.map Node.id := by
    refine (Outcome.map_eq_map_iff.mpr ⟨each.length_eq, fun p mem => ?_⟩).symm
    exact (link_ok (List.forall₂_zip each mem)).1.symm
  have source {n} (mem : n ∈ g.nodes.toList) : ∃ m ∈ news, g₀.link m = .ok n := by
    obtain ⟨m, mem⟩ := Outcome.exists_mem_zip_right each.length_eq mem
    exact ⟨m, (List.of_mem_zip mem).1, List.forall₂_zip each mem⟩
  have within := grows.within ⟨List.forall_mem_nil _, List.forall_mem_nil _, List.forall_mem_nil _⟩
  have size : g.size = g₀.size := by
    rw [Graph.size, Graph.size, ← Array.length_toList, ← Array.length_toList, all, each.length_eq]
  refine ⟨⟨?_, fun n mem => ?_, fun n mem ref => ?_, fun n mem target leads => ?_⟩,
    fun once marks => ?_⟩
  · rw [ids, eq]
    exact grows.byId
  · obtain ⟨m, mem, link⟩ := source mem
    exact (link_ok link).2.1 ▸ (placed m mem).2.properties
  · obtain ⟨m, mem, link⟩ := source mem
    obtain ⟨-, -, kind, target⟩ := link_ok link
    exact target ((placed m mem).2.reference (kind ▸ ref))
  · obtain ⟨m, -, link⟩ := source mem
    exact Nat.lt_of_lt_of_eq (link_lt within link leads) size.symm
  · exact ids ▸ distinct once marks

end TypedArchive.Graph
