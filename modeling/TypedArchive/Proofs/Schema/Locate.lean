import TypedArchive.Proofs.Schema.Bytes
import TypedArchive.Proofs.Schema.Load
import TypedArchive.Proofs.Schema.Slot

/-! Where the nodes of a loaded graph are found: each at its pointer in its document, and each by
its identifier and by its place. -/

namespace TypedArchive

/-- A node says of an enumeration what its schema says. -/
structure Node.Worded (n : Node) : Prop where
  values : ∀ values, n.enumValues = some values → n.schema.get? "enum" = some (.array values)
  descriptions : n.enumDescriptions = Graph.texts (n.schema.get? "enumDescriptions")

/-- A node was read from a document, below some slots. -/
structure Node.ReadAt (n : Node) (root : Json) (slots : List Slot) : Prop where
  pointer : n.pointer = Slot.pointer slots
  reaches : root.Reaches slots n.schema
  worded : n.Worded

namespace Graph

/-- A loading step that succeeds keeps a property of the graph. -/
def Keeps {α : Type} (I : Graph → Prop) (x : Load α) : Prop :=
  ∀ ⦃g⦄, I g → ∀ ⦃a g'⦄, x g = .ok (a, g') → I g'

section Keeps

variable {α β : Type} {I : Graph → Prop}

theorem Keeps.pure (a : α) : Keeps I (pure a) := by
  intro g holds a' g' h
  cases h
  exact holds

theorem Keeps.fail (e : SchemaError) : Keeps I (fail e : Load α) :=
  fun _ _ _ _ h => absurd h Outcome.throw_run_ne_ok

theorem Keeps.bind {x : Load α} {f : α → Load β} (hx : Keeps I x) (hf : ∀ a, Keeps I (f a)) :
    Keeps I (x >>= f) := by
  intro g holds b g' h
  obtain ⟨a, g₁, run, h⟩ := Outcome.bind_run_eq_ok.mp h
  exact hf a (hx holds run) h

theorem Keeps.lift_bind {x : Except SchemaError α} {f : α → Load β}
    (hf : ∀ a, x = .ok a → Keeps I (f a)) : Keeps I (liftM x >>= f) := by
  intro g holds b g' h
  obtain ⟨a, g₁, run, h⟩ := Outcome.bind_run_eq_ok.mp h
  obtain ⟨read, rfl⟩ := Outcome.lift_run_eq_ok.mp run
  exact hf a read holds h

theorem Keeps.map {x : Load α} (f : α → β) (hx : Keeps I x) : Keeps I (f <$> x) := by
  intro g holds b g' h
  obtain ⟨a, run, rfl⟩ := Outcome.map_run_eq_ok.mp h
  exact hx holds run

theorem Keeps.mapM {f : α → Load β} (xs : List α) (each : ∀ x ∈ xs, Keeps I (f x)) :
    Keeps I (xs.mapM f) := by
  induction xs with
  | nil =>
    rw [List.mapM_nil]
    exact .pure []
  | cons x xs ih =>
    rw [List.forall_mem_cons] at each
    rw [List.mapM_cons]
    exact each.1.bind fun y => (ih each.2).bind fun ys => .pure _

end Keeps

theorem readKeywords_schema {document : String} {pointer : Pointer} {schema : Json}
    {members : Assoc Json} {n : Node} (h : readKeywords document pointer schema members = .ok n) :
    n.schema = schema := by
  rw [readKeywords] at h
  split at h
  · split at h <;> cases h <;> rfl
  · split at h <;> cases h <;> rfl
  · cases h

theorem readKeywords_values {document : String} {pointer : Pointer} {schema : Json}
    {members : Assoc Json} {n : Node} (h : readKeywords document pointer schema members = .ok n)
    {values : List Json} (found : n.enumValues = some values) :
    members.get? "enum" = some (.array values) := by
  rw [readKeywords] at h
  split at h
  · split at h <;> cases h
    · cases found
    · cases found
      assumption
  · split at h <;> cases h
    · cases found
    · cases found
      assumption
  · cases h

theorem readKeywords_descriptions {document : String} {pointer : Pointer} {schema : Json}
    {members : Assoc Json} {n : Node} (h : readKeywords document pointer schema members = .ok n) :
    n.enumDescriptions = texts (members.get? "enumDescriptions") := by
  rw [readKeywords] at h
  split at h
  · split at h <;> cases h <;> rfl
  · split at h <;> cases h <;> rfl
  · cases h

section Visit

variable {I : Graph → Prop} {document : String} {root schema : Json} {slots : List Slot}

section Children

variable {visit : Pointer → Json → Load Nat}
  (inner : ∀ slots v, v.Sorted → root.Reaches slots v → Keeps I (visit (Slot.pointer slots) v))
  (reaches : root.Reaches slots schema)

include inner reaches

theorem visitMembers_keeps (k : Keyword) (fits : k.arrangement = .named) {v : Option Json}
    (child : ∀ w, v = some w → w.Sorted ∧ schema.follow? k.text = some w) :
    Keeps I (visitMembers visit (Slot.pointer slots) k.text v) := by
  rw [visitMembers.eq_def]
  split
  · next members =>
    obtain ⟨sorted, found⟩ := child _ rfl
    obtain ⟨keys, each⟩ := Json.sorted_object.mp sorted
    refine .mapM members fun p mem => ?_
    have listed : Assoc.get? members p.1 = some p.2 := Assoc.get?_of_mem keys.keys_nodup mem
    have stands : schema.Has (.member k fits p.1) p.2 := .member found listed
    have visited := inner _ _ (each p mem) (reaches.inner stands)
    rw [Slot.pointer_cons] at visited
    exact visited.bind fun _ => .pure _
  · exact .pure _

theorem visitBranches_keeps (k : Keyword) (fits : k.arrangement = .listed) {v : Option Json}
    (child : ∀ w, v = some w → w.Sorted ∧ schema.follow? k.text = some w) :
    Keeps I (visitBranches visit document (Slot.pointer slots) k.text v) := by
  rw [visitBranches.eq_def]
  split
  · next schemas =>
    obtain ⟨sorted, found⟩ := child _ rfl
    refine .mapM schemas.zipIdx fun p mem => ?_
    have item : schemas[p.2]? = some p.1 := List.mem_zipIdx_iff_getElem?.mp mem
    have sorted := Json.sorted_array.mp sorted _ (List.mem_of_getElem? item)
    have stands : schema.Has (.branch k fits p.2) p.1 := .branch found item
    have visited := inner _ _ sorted (reaches.inner stands)
    rwa [Slot.pointer_cons] at visited
  · exact .fail _
  · exact .pure _

theorem visitWhole_keeps (k : Keyword) (fits : k.arrangement = .single) {w : Json}
    (child : w.Sorted ∧ schema.follow? k.text = some w) :
    Keeps I (visit (Slot.pointer slots ++ [k.text]) w) := by
  have stands : schema.Has (.whole k fits) w := .whole child.2
  have visited := inner _ _ child.1 (reaches.inner stands)
  rwa [Slot.pointer_cons] at visited

theorem visitItems_keeps {v : Option Json}
    (child : ∀ w, v = some w → w.Sorted ∧ schema.follow? "items" = some w) :
    Keeps I (visitItems visit (Slot.pointer slots) v) := by
  rw [visitItems.eq_def]
  split
  · exact (visitWhole_keeps inner reaches .items rfl (child _ rfl)).map _
  · exact (visitWhole_keeps inner reaches .items rfl (child _ rfl)).map _
  · exact .pure _

theorem visitAdditional_keeps {members : Assoc Json}
    (child : ∀ key w, members.get? key = some w → w.Sorted ∧ schema.follow? key = some w) :
    Keeps I (visitAdditional visit (Slot.pointer slots) members) := by
  rw [visitAdditional]
  split
  · next listed =>
    exact (visitWhole_keeps inner reaches .additionalProperties rfl (child _ _ listed)).map _
  · exact (visitMembers_keeps inner reaches .patternProperties rfl (child _)).bind fun _ => .pure _

variable (push : ∀ g n slots, I g → n.document = document → n.ReadAt root slots → I (g.push n))

include push

theorem visitKeywords_keeps {members : Assoc Json}
    (sorted : ∀ key w, members.get? key = some w → w.Sorted)
    (same : ∀ key, members.get? key = schema.get? key) :
    Keeps I (visitKeywords visit document (Slot.pointer slots) schema members) := by
  have child (key w) (found : members.get? key = some w) :
      w.Sorted ∧ schema.follow? key = some w :=
    ⟨sorted key w found, Json.follow?_of_get? (same key ▸ found)⟩
  rw [visitKeywords]
  refine .lift_bind fun keywords read => .lift_bind fun declared _ => ?_
  refine (visitMembers_keeps inner reaches .definitions rfl (child _)).bind fun _ => ?_
  refine (visitMembers_keeps inner reaches .defs rfl (child _)).bind fun _ => ?_
  refine (visitMembers_keeps inner reaches .properties rfl (child _)).bind fun properties => ?_
  refine (visitItems_keeps inner reaches (child _)).bind fun items => ?_
  refine (visitAdditional_keeps inner reaches child).bind fun additional => ?_
  refine (visitBranches_keeps inner reaches .allOf rfl (child _)).bind fun allOf => ?_
  refine (visitBranches_keeps inner reaches .oneOf rfl (child _)).bind fun oneOf => ?_
  refine (visitBranches_keeps inner reaches .anyOf rfl (child _)).bind fun anyOf => ?_
  refine .lift_bind fun kind _ => ?_
  obtain ⟨at', pointer⟩ := readKeywords_place read
  have own := readKeywords_schema read
  have worded : keywords.Worded := by
    refine ⟨fun values found => ?_, ?_⟩
    · rw [own, ← same]
      exact readKeywords_values read found
    · rw [own, ← same]
      exact readKeywords_descriptions read
  intro g holds i g' h
  cases h
  exact push g _ slots holds at' ⟨pointer, own ▸ reaches, worded.values, worded.descriptions⟩

end Children

/-- What each node keeps that is read from a schema of the document, a visit keeps. -/
theorem visit_keeps
    (push : ∀ g n slots, I g → n.document = document → n.ReadAt root slots → I (g.push n))
    (depth : Nat) (slots : List Slot) (v : Json) (sorted : v.Sorted)
    (reaches : root.Reaches slots v) :
    Keeps I (visit document depth (Slot.pointer slots) v) := by
  induction depth generalizing slots v with
  | zero =>
    rw [visit.eq_def]
    exact .fail _
  | succ depth ih =>
    cases v with
    | object members =>
      rw [visit]
      refine visitKeywords_keeps ih reaches push (fun key w member => ?_) fun key => rfl
      exact (Json.sorted_object.mp sorted).2 _ (Assoc.mem_of_get? member)
    | bool b =>
      rw [visit]
      exact visitKeywords_keeps ih reaches push (fun key w member => by cases member) fun key => rfl
    | null | number _ | string _ | array _ =>
      rw [visit.eq_def]
      exact .fail _

end Visit

/-- A loading step gives a node that stands at a place. -/
def GivesPlace (document : String) (pointer : Pointer) (x : Load Nat) : Prop :=
  ∀ ⦃g g' i⦄, x g = .ok (i, g') →
    ∃ n, g'.node? i = some n ∧ n.document = document ∧ n.pointer = pointer

theorem GivesPlace.bind {α : Type} {document : String} {pointer : Pointer} {x : Load α}
    {f : α → Load Nat} (hf : ∀ a, GivesPlace document pointer (f a)) :
    GivesPlace document pointer (x >>= f) := by
  intro g g' i h
  obtain ⟨a, g₁, -, h⟩ := Outcome.bind_run_eq_ok.mp h
  exact hf a h

theorem node?_push (g : Graph) (n : Node) : (g.push n).node? g.size = some n :=
  Array.getElem?_push_size

theorem node?_push_of_node? {g : Graph} {i : Nat} {m : Node} (h : g.node? i = some m) (n : Node) :
    (g.push n).node? i = some m := by
  have lt : i < g.nodes.size := (Array.getElem?_eq_some_iff.mp h).1
  rw [node?] at h
  rw [node?, push, Array.getElem?_push, if_neg (Nat.ne_of_lt lt), h]

theorem visit_givesPlace (document : String) (depth : Nat) (pointer : Pointer) (v : Json) :
    GivesPlace document pointer (visit document depth pointer v) := by
  have keywords (inner) (schema) (members) :
      GivesPlace document pointer (visitKeywords inner document pointer schema members) := by
    rw [visitKeywords]
    intro g g' i h
    obtain ⟨keywords, g₁, run, h⟩ := Outcome.bind_run_eq_ok.mp h
    obtain ⟨read, rfl⟩ := Outcome.lift_run_eq_ok.mp run
    obtain ⟨rfl, rfl⟩ := readKeywords_place read
    revert h
    apply GivesPlace.bind
    iterate 9 refine fun _ => .bind ?_
    intro kind g g' i h
    cases h
    exact ⟨_, node?_push g _, rfl, rfl⟩
  rw [visit.eq_def]
  split
  · exact keywords _ _ _
  · exact keywords _ _ _
  · exact fun _ _ _ h => absurd h Outcome.throw_run_ne_ok

/-- The nodes of a graph are read from the documents, and the roots stand at the top of theirs. -/
structure Located (documents : Assoc String) (g : Graph) : Prop where
  reads : ∀ n ∈ g.nodes.toList, ∃ text v slots, (n.document, text) ∈ documents ∧
    Json.parseBytes text.toUTF8.toList = .ok v ∧ n.ReadAt v slots
  roots : ∀ p ∈ g.roots, ∃ n, g.node? p.2 = some n ∧ n.document = p.1 ∧ n.pointer = []

theorem Located.nodes {documents : Assoc String} {g : Graph} (h : g.Located documents) :
    ∀ n ∈ g.nodes.toList, ∃ text v, (n.document, text) ∈ documents ∧
      Json.parseBytes text.toUTF8.toList = .ok v ∧ v.descend? n.pointer = some n.schema := by
  intro n mem
  obtain ⟨text, v, slots, listed, parsed, read⟩ := h.reads n mem
  exact ⟨text, v, listed, parsed, read.pointer ▸ read.reaches.descend?⟩

theorem Located.push {documents : Assoc String} {g : Graph} (h : g.Located documents) {n : Node}
    {text : String} {v : Json} {slots : List Slot} (listed : (n.document, text) ∈ documents)
    (parsed : Json.parseBytes text.toUTF8.toList = .ok v) (read : n.ReadAt v slots) :
    (g.push n).Located documents where
  reads m mem := by
    have nodes : (g.push n).nodes.toList = g.nodes.toList ++ [n] := Array.toList_push
    rw [nodes, List.mem_append, List.mem_singleton] at mem
    rcases mem with mem | rfl
    · exact h.reads m mem
    · exact ⟨text, v, slots, listed, parsed, read⟩
  roots p mem := by
    obtain ⟨m, here, place⟩ := h.roots p mem
    exact ⟨m, node?_push_of_node? here n, place⟩

theorem loadDocument_located {documents : Assoc String} {name text : String}
    (listed : (name, text) ∈ documents) :
    Keeps (Located documents) (loadDocument name text) := by
  rw [loadDocument]
  split
  · exact .fail _
  · next v parsed =>
    intro g located u g' h
    obtain ⟨root, g₁, run, h⟩ := Outcome.bind_run_eq_ok.mp h
    have push (g : Graph) (n : Node) (slots : List Slot) (located : g.Located documents)
        (own : n.document = name) (read : n.ReadAt v slots) : (g.push n).Located documents := by
      subst own
      exact located.push listed parsed read
    have placed : g₁.Located documents :=
      visit_keeps push _ [] v (Json.parseBytes_sorted parsed) .root located run
    obtain ⟨n, here, document, pointer⟩ := visit_givesPlace _ _ _ _ run
    cases h
    refine ⟨placed.reads, fun p mem => ?_⟩
    rcases Assoc.mem_insert mem with rfl | mem
    · exact ⟨n, here, document, pointer⟩
    · exact placed.roots p mem

/-- A document that is loaded has a root, and those that were loaded keep theirs. -/
theorem loadDocument_roots {name text : String} {g g' : Graph} {u : Unit}
    (h : loadDocument name text g = .ok (u, g')) (other : String)
    (rooted : other = name ∨ g.roots.contains other = true) : g'.roots.contains other = true := by
  cases parsed : Json.parseBytes text.toUTF8.toList with
  | error e =>
    simp only [loadDocument, parsed] at h
    exact absurd h Outcome.throw_run_ne_ok
  | ok v =>
    simp only [loadDocument, parsed] at h
    obtain ⟨root, g₁, run, h⟩ := Outcome.bind_run_eq_ok.mp h
    have same : Keeps (fun g₁ => g₁.roots = g.roots) (visit name (v.depth + 1) [] v) :=
      visit_keeps (fun _ _ _ holds _ _ => holds) _ [] v (Json.parseBytes_sorted parsed) .root
    have kept : g₁.roots = g.roots := same rfl run
    cases h
    rw [Assoc.contains_iff_mem_keys, Assoc.mem_keys_insert, kept]
    exact rooted.imp_right Assoc.contains_iff_mem_keys.mp

theorem loadDocuments_located {all documents : Assoc String} (sub : documents ⊆ all)
    {g g' : Graph} {u : Unit}
    (h : (documents.forM fun p => loadDocument p.1 p.2) g = .ok (u, g')) (located : g.Located all) :
    g'.Located all ∧ ∀ name, name ∈ documents.keys ∨ g.roots.contains name = true →
      g'.roots.contains name = true := by
  induction documents generalizing g with
  | nil =>
    cases h
    exact ⟨located, fun name rooted => rooted.resolve_left List.not_mem_nil⟩
  | cons p documents ih =>
    rw [List.forM_eq_forM, List.forM_cons] at h
    obtain ⟨_, g₁, run, h⟩ := Outcome.bind_run_eq_ok.mp h
    obtain ⟨mem, sub⟩ := List.cons_subset.mp sub
    obtain ⟨located, rooted⟩ := ih sub h (loadDocument_located mem located run)
    refine ⟨located, fun name known => rooted name ?_⟩
    rw [Assoc.keys, List.map_cons, List.mem_cons, or_assoc] at known
    rcases known with first | later | before
    · exact Or.inr (loadDocument_roots run name (Or.inl first))
    · exact Or.inl later
    · exact Or.inr (loadDocument_roots run name (Or.inr before))

theorem link_eq {g : Graph} {n n' : Node} (h : g.link n = .ok n') :
    ∃ reference, n' = { n with reference } := by
  rw [link] at h
  split at h
  · cases h
    exact ⟨_, rfl⟩
  · split at h
    · cases h
      exact ⟨_, rfl⟩
    · cases h

/-- Reading does not depend on where references lead. -/
theorem readAt_link {g : Graph} {n n' : Node} (linked : g.link n = .ok n') {root : Json}
    {slots : List Slot} (read : n.ReadAt root slots) :
    n'.document = n.document ∧ n'.ReadAt root slots := by
  obtain ⟨reference, rfl⟩ := link_eq linked
  exact ⟨rfl, read.pointer, read.reaches, read.worded.values, read.worded.descriptions⟩

theorem Located.of_linked {documents : Assoc String} {g g' : Graph} (h : g.Located documents)
    (linked : List.Forall₂ (fun n n' => g.link n = .ok n') g.nodes.toList g'.nodes.toList)
    (roots : g'.roots = g.roots) : g'.Located documents where
  reads n mem := by
    obtain ⟨m, both⟩ := Outcome.exists_mem_zip_right linked.length_eq mem
    obtain ⟨text, v, slots, listed, parsed, read⟩ := h.reads m (List.of_mem_zip both).1
    obtain ⟨document, read⟩ := readAt_link (List.forall₂_zip linked both) read
    exact ⟨text, v, slots, document ▸ listed, parsed, read⟩
  roots p mem := by
    obtain ⟨m, here, document, pointer⟩ := h.roots p (roots ▸ mem)
    rw [node?, ← Array.getElem?_toList] at here
    obtain ⟨lt, rfl⟩ := List.getElem?_eq_some_iff.mp here
    have lt' := Nat.lt_of_lt_of_eq lt linked.length_eq
    obtain ⟨reference, eq⟩ := link_eq (linked.get lt lt')
    refine ⟨g'.nodes.toList[p.2], ?_, ?_⟩
    · rw [node?, ← Array.getElem?_toList]
      exact List.getElem?_eq_getElem lt'
    · rw [List.get_eq_getElem, List.get_eq_getElem] at eq
      rw [eq]
      exact ⟨document, pointer⟩

/-- In a loaded graph each node stands at its pointer in its document, and each document has a
root. -/
theorem located_of_load {b : Bundle} {g : Graph} (h : load b = .ok g) :
    g.Located b.documents ∧ ∀ name ∈ b.documents.keys, g.roots.contains name = true := by
  obtain ⟨g₀, read, eq, each⟩ := exists_readAll_of_load h
  obtain ⟨u, read⟩ := readAll_eq_ok read
  obtain ⟨located, rooted⟩ := loadDocuments_located (List.Subset.refl _) read
    ⟨List.forall_mem_nil _, List.forall_mem_nil _⟩
  have roots : g.roots = g₀.roots := by rw [eq]
  refine ⟨located.of_linked each roots, fun name mem => ?_⟩
  rw [roots]
  exact rooted name (Or.inl mem)

/-- A text is split at its first mark. -/
theorem splitAtMark_append {mark : Char} {s : List Char} (free : mark ∉ s) (rest : List Char) :
    splitAtMark mark (s ++ mark :: rest) = (s, some rest) := by
  have before : ∀ c ∈ s, (c != mark) = true := fun c mem =>
    bne_iff_ne.mpr (ne_of_mem_of_not_mem mem free)
  have after : (s ++ mark :: rest).dropWhile (· != mark) = mark :: rest := by
    rw [List.dropWhile_append_of_pos before, List.dropWhile_cons_of_neg (by simp)]
  rw [splitAtMark, after, Pointer.takeWhile_ne_append free (by simp)]

/-- The nodes of a graph are told apart by their identifiers, and each is found by its identifier,
by its place and at its pointer in its document. -/
structure Locates (b : Bundle) (g : Graph) : Prop where
  distinct : (g.nodes.toList.map Node.id).Nodup
  /-- The order of identifiers visits every node once. -/
  visits : g.inIdOrder.Perm (List.range g.size)
  leads : ∀ i n, g.node? i = some n → ∃ text v, b.get? n.document = some text ∧
    Json.parseBytes text.toUTF8.toList = .ok v ∧ v.evaluate? n.pointer.text = some n.schema
  byId : ∀ i n, g.node? i = some n → ∀ document, g.resolve document n.id = some i
  byPlace : ∀ i n, g.node? i = some n → g.resolve n.document ("#" ++ n.pointer.text) = some i

section Fragment

variable {g : Graph} {document owner reference : String} {name : List Char}
  (target : (if name.isEmpty then some document
    else g.resolveDocument document (String.ofList name)) = some owner)

include target

/-- Without a text behind the mark a reference means the root of a document. -/
theorem resolve_root (split : splitAtMark '#' reference.toList = (name, some [])) :
    g.resolve document reference = g.roots.get? owner := by
  rw [resolve, split]
  split at target
  · next empty =>
    cases target
    simp [empty]
  · next named => simp [target, named]

/-- A text that begins with a slash is the pointer of a node. -/
theorem resolve_pointer {text : List Char}
    (split : splitAtMark '#' reference.toList = (name, some ('/' :: text))) :
    g.resolve document reference = g.get? (owner ++ "#" ++ String.ofList ('/' :: text)) := by
  rw [resolve, split]
  split at target
  · next empty =>
    cases target
    simp [empty]
  · next named => simp [target, named]

end Fragment

section Resolve

variable {documents : Assoc String} {g : Graph} (loaded : g.Loaded)
  (distinct : (g.nodes.toList.map Node.id).Nodup) (located : g.Located documents)

include loaded distinct

theorem get?_id {i : Nat} {n : Node} (here : g.node? i = some n) : g.get? n.id = some i := by
  have listed : (n.id, i) ∈ (g.nodes.toList.map Node.id).zipIdx := by
    rw [List.mem_zipIdx_iff_getElem?, List.getElem?_map, Array.getElem?_toList]
    exact congrArg _ here
  have keys : ((g.nodes.toList.map Node.id).zipIdx.map Prod.fst).Nodup := by
    rwa [List.zipIdx_map_fst]
  rw [Graph.get?, loaded.byId]
  exact Assoc.get?_insertAll_of_mem [] keys listed

include located

/-- The root of a document is the node at its top. -/
theorem get?_roots {i : Nat} {n : Node} (here : g.node? i = some n) (top : n.pointer = [])
    (rooted : g.roots.contains n.document = true) : g.roots.get? n.document = some i := by
  obtain ⟨j, found⟩ := Assoc.contains_iff_exists.mp rooted
  obtain ⟨m, there, document, pointer⟩ := located.roots _ (Assoc.mem_of_get? found)
  have same : m.id = n.id := by
    rw [Node.id, Node.id, document, pointer, top]
  have index := get?_id loaded distinct there
  rw [same, get?_id loaded distinct here] at index
  rw [found, index]

/-- A reference whose part behind the mark is the pointer of a node leads to the node, if the part
before it means the document of the node. -/
theorem resolve_place {i : Nat} {n : Node} (here : g.node? i = some n)
    (rooted : g.roots.contains n.document = true) {document reference : String} {name : List Char}
    (split : splitAtMark '#' reference.toList = (name, some n.pointer.text.toList))
    (target : (if name.isEmpty then some document
      else g.resolveDocument document (String.ofList name)) = some n.document) :
    g.resolve document reference = some i := by
  cases pointer : n.pointer with
  | nil =>
    rw [pointer] at split
    rw [resolve_root target split]
    exact get?_roots loaded distinct located here pointer rooted
  | cons segment rest =>
    rw [pointer, Pointer.toList_text_cons] at split
    rw [resolve_pointer target split, ← Pointer.toList_text_cons, String.ofList_toList, ← pointer]
    exact get?_id loaded distinct here

end Resolve

/-- In a graph that is loaded from documents with plain names every node is located. -/
theorem locates_of_load {b : Bundle} {g : Graph} (load : Graph.load b = .ok g)
    (once : b.documents.keys.Nodup)
    (names : ∀ name ∈ b.documents.keys, name ≠ "" ∧ '#' ∉ name.toList) : g.Locates b := by
  obtain ⟨loaded, distinct⟩ := loaded_of_load load
  obtain ⟨located, rooted⟩ := located_of_load load
  have distinct := distinct once fun name mem => (names name mem).2
  have member {i n} (here : g.node? i = some n) : n ∈ g.nodes.toList :=
    Array.mem_toList_iff.mpr (Array.mem_of_getElem? here)
  have document {i n} (here : g.node? i = some n) : n.document ∈ b.documents.keys := by
    obtain ⟨text, v, listed, -⟩ := located.nodes n (member here)
    exact List.mem_map_of_mem listed
  refine ⟨distinct, loaded.inIdOrder_perm distinct, ?_, ?_, ?_⟩
  · intro i n here
    obtain ⟨text, v, listed, parsed, found⟩ := located.nodes n (member here)
    rw [← Json.evaluate?_text] at found
    exact ⟨text, v, Assoc.get?_of_mem once listed, parsed, found⟩
  · intro i n here d
    have known := document here
    obtain ⟨named, free⟩ := names _ known
    have split : splitAtMark '#' n.id.toList =
        (n.document.toList, some n.pointer.text.toList) := by
      rw [Node.id, Node.qualify, String.toList_append, String.toList_append, List.append_assoc]
      exact splitAtMark_append free _
    refine resolve_place loaded distinct located here (rooted _ known) split ?_
    have full : n.document.toList.isEmpty = false := by
      simpa using named
    rw [full, if_neg Bool.false_ne_true, String.ofList_toList, resolveDocument,
      if_pos (rooted _ known)]
  · intro i n here
    have split : splitAtMark '#' ("#" ++ n.pointer.text).toList =
        ([], some n.pointer.text.toList) := by
      rw [String.toList_append]
      exact splitAtMark_append List.not_mem_nil _
    exact resolve_place loaded distinct located here (rooted _ (document here)) split rfl

set_option maxRecDepth 100000 in
theorem locates_of_odd_names :
    let names : List String := ["", "#", "0", "a/b", "items", "~1"]
    let properties : Json := .object (names.map fun name => (name, .object []))
    let branch : Json := .object [("$ref", .string "#/properties/a~1b")]
    let first : Json := .object [("allOf", .array [branch]), ("properties", properties)]
    let second : Json := .object [("items", .object [("$ref", .string "a#/allOf/0")])]
    let b : Bundle := ⟨[("a", first.render), ("b/a", second.render)]⟩
    ∃ g, Graph.load b = .ok g ∧ g.Locates b := by
  intro names properties branch first second b
  have runs : (Graph.load b).isOk = true := by
    rw [Graph.load_eq_loadBytes]
    decide +kernel
  obtain ⟨g, load⟩ := Outcome.exists_of_isOk runs
  have plain : ∀ name ∈ b.documents.keys, name ≠ "" ∧ '#' ∉ name.toList := by decide
  exact ⟨g, load, locates_of_load load (by decide) plain⟩

end Graph

end TypedArchive
