import TypedArchive.Proofs.Schema.Locate

/-! References to a document from beside it, `./` and the last segment of its name. Inside a
directory only a document of this very name comes before the sibling. At the top the last segment
alone counts, and it means nothing when documents elsewhere end in it too. -/

namespace TypedArchive.Graph

theorem forall_ne_of_not_mem {mark : Char} {cs : List Char} (free : mark ∉ cs) :
    ∀ c ∈ cs, (c != mark) = true := fun _ mem =>
  bne_iff_ne.mpr (ne_of_mem_of_not_mem mem free)

/-- A name without a slash stands at the top. -/
theorem splitDirectory_flat {name : String} (flat : '/' ∉ name.toList) :
    splitDirectory name = (none, name) := by
  have all := forall_ne_of_not_mem (mt List.mem_reverse.mp flat)
  have rest : name.toList.reverse.dropWhile (· != '/') = [] := List.dropWhile_eq_nil_iff.mpr all
  simp only [splitDirectory, rest, List.takeWhile_eq_self_iff.mpr all, List.reverse_reverse,
    String.ofList_toList]

/-- A name is split at its last slash. -/
theorem splitDirectory_join (directory : String) {segment : String}
    (flat : '/' ∉ segment.toList) :
    splitDirectory (directory ++ "/" ++ segment) = (some directory, segment) := by
  have all := forall_ne_of_not_mem (mt List.mem_reverse.mp flat)
  have chars : (directory ++ "/" ++ segment).toList.reverse =
      segment.toList.reverse ++ '/' :: directory.toList.reverse := by
    simp [String.toList_append]
  have before : (directory ++ "/" ++ segment).toList.reverse.takeWhile (· != '/') =
      segment.toList.reverse := by
    rw [chars, List.takeWhile_append_of_pos all, List.takeWhile_cons_of_neg (by decide),
      List.append_nil]
  have after : (directory ++ "/" ++ segment).toList.reverse.dropWhile (· != '/') =
      '/' :: directory.toList.reverse := by
    rw [chars, List.dropWhile_append_of_pos all, List.dropWhile_cons_of_neg (by decide)]
  simp only [splitDirectory, before, after, List.reverse_reverse, String.ofList_toList]

/-- A name is its last segment, below its directory if it has one. -/
theorem splitDirectory_spec {name segment : String} {directory : Option String}
    (h : splitDirectory name = (directory, segment)) :
    '/' ∉ segment.toList ∧
      name = directory.elim segment fun directory => directory ++ "/" ++ segment := by
  by_cases slash : '/' ∈ name.toList
  · obtain ⟨after, before, split, flat⟩ :=
      List.eq_append_cons_of_mem (List.mem_reverse.mpr slash)
    have join : name = String.ofList before.reverse ++ "/" ++ String.ofList after.reverse := by
      have chars := congrArg List.reverse split
      rw [List.reverse_reverse] at chars
      rw [← String.toList_inj, chars]
      simp [String.toList_append]
    have flat : '/' ∉ (String.ofList after.reverse).toList := by
      simpa using flat
    rw [join, splitDirectory_join _ flat] at h
    cases h
    exact ⟨flat, join⟩
  · rw [splitDirectory_flat slash] at h
    cases h
    exact ⟨slash, rfl⟩

theorem dropDotSlashes_flat {cs : List Char} (flat : '/' ∉ cs) : dropDotSlashes cs = cs := by
  rw [dropDotSlashes.eq_def]
  split
  · simp at flat
  · rfl

/-- A reference without a mark is the name of a document. -/
theorem resolve_document (g : Graph) (source : String) {reference : String}
    (named : reference ≠ "") (free : '#' ∉ reference.toList) :
    g.resolve source reference = (g.resolveDocument source reference).bind g.root? := by
  have all := forall_ne_of_not_mem free
  have split : splitAtMark '#' reference.toList = (reference.toList, none) := by
    rw [splitAtMark, List.dropWhile_eq_nil_iff.mpr all]
  have full : reference.toList.isEmpty = false := by
    simpa using named
  rw [resolve, split]
  simp only [full, Bool.false_eq_true, if_false, String.ofList_toList, Option.getD_none]
  rfl

theorem loadDocument_sorted (name text : String) :
    Keeps (fun g => g.roots.Sorted) (loadDocument name text) := by
  rw [loadDocument]
  split
  · exact .fail _
  · next v parsed =>
    refine Keeps.bind ?_ fun root g sorted u g' h => ?_
    · exact visit_keeps (fun _ _ _ sorted _ _ => sorted) _ [] v (Json.parseBytes_sorted parsed) .root
    · cases h
      exact sorted.insert

theorem loadDocuments_sorted (documents : Assoc String) :
    Keeps (fun g => g.roots.Sorted) (documents.forM fun p => loadDocument p.1 p.2) := by
  induction documents with
  | nil => exact .pure ()
  | cons p documents ih =>
    rw [List.forM_eq_forM, List.forM_cons]
    exact (loadDocument_sorted p.1 p.2).bind fun _ => ih

/-- The roots of a graph are the nodes at the top of the documents. -/
structure Rooted (b : Bundle) (g : Graph) : Prop where
  sorted : g.roots.Sorted
  documents : ∀ name, name ∈ g.roots.keys ↔ name ∈ b.documents.keys
  tops : ∀ p ∈ g.roots, ∃ n, g.node? p.2 = some n ∧ n.document = p.1 ∧ n.pointer = []

theorem rooted_of_readAll {b : Bundle} {g : Graph} (read : readAll b = .ok g) : g.Rooted b := by
  obtain ⟨u, run⟩ := readAll_eq_ok read
  obtain ⟨located, rooted⟩ := loadDocuments_located (List.Subset.refl _) run
    ⟨List.forall_mem_nil _, List.forall_mem_nil _⟩
  refine ⟨loadDocuments_sorted _ Assoc.sorted_nil run, fun name => ⟨fun mem => ?_, fun mem => ?_⟩,
    located.roots⟩
  · obtain ⟨p, listed, rfl⟩ := List.mem_map.mp mem
    obtain ⟨n, here, document, -⟩ := located.roots p listed
    obtain ⟨text, v, found, -⟩ :=
      located.nodes n (Array.mem_toList_iff.mpr (Array.mem_of_getElem? here))
    exact document ▸ List.mem_map_of_mem found
  · exact Assoc.contains_iff_mem_keys.mp (rooted name (.inl mem))

section Rooted

variable {b : Bundle} {g : Graph} (rooted : g.Rooted b)

include rooted

theorem Rooted.contains_iff {name : String} :
    g.roots.contains name = true ↔ name ∈ b.documents.keys :=
  Assoc.contains_iff_mem_keys.trans (rooted.documents name)

/-- Two documents have two roots. -/
theorem Rooted.root?_inj {name other : String} {i : Nat} (h : g.root? name = some i)
    (h' : g.root? other = some i) : name = other := by
  obtain ⟨n, here, document, -⟩ := rooted.tops _ (Assoc.mem_of_get? h)
  obtain ⟨n', here', document', -⟩ := rooted.tops _ (Assoc.mem_of_get? h')
  cases here.symm.trans here'
  exact document.symm.trans document'

end Rooted

/-- The reference to a document from beside it. -/
def toSibling (name : String) : String := "./" ++ (splitDirectory name).2

theorem toSibling_ne_empty (name : String) : toSibling name ≠ "" := by
  intro empty
  have chars := congrArg String.toList empty
  simp [toSibling, String.toList_append] at chars

theorem toSibling_free {name : String} (free : '#' ∉ name.toList) :
    '#' ∉ (toSibling name).toList := by
  have segment : (splitDirectory name).2.toList ⊆ name.toList := by
    obtain ⟨-, eq⟩ := splitDirectory_spec (Prod.eta (splitDirectory name)).symm
    conv_rhs => rw [eq]
    cases (splitDirectory name).1 with
    | none => exact List.Subset.refl _
    | some directory => simp [String.toList_append]
  rw [toSibling, String.toList_append, List.mem_append, not_or]
  exact ⟨by decide, fun mem => free (segment mem)⟩

/-- A reference from one document to another beside it is not taken for something else: no document
has the very text of the reference as its name, and at the top no other document ends like the one
that is meant. -/
structure Clear (b : Bundle) (source sibling : String) : Prop where
  exact : ∀ name ∈ b.documents.keys, name = toSibling sibling → name = sibling
  alone : (splitDirectory source).1 = none → ∀ name ∈ b.documents.keys,
    (splitDirectory name).2 = (splitDirectory sibling).2 → name = sibling

/-- A list without repetitions has one member exactly if all its members are that one. -/
theorem only_eq_some_iff {names : List String} {name : String} : names.Nodup → name ∈ names →
    ((match names with | [only] => some only | _ => none) = some name ↔
      ∀ other ∈ names, other = name) := by
  intro once mem
  match names with
  | [] => cases mem
  | [only] => simp [eq_comm]
  | first :: second :: rest =>
    simp only [reduceCtorEq, false_iff, List.forall_mem_cons]
    rintro ⟨rfl, rfl, -⟩
    simp at once

section Sibling

variable {b : Bundle} {g : Graph} (rooted : g.Rooted b) {source sibling : String}
  (listed : sibling ∈ b.documents.keys)
  (beside : (splitDirectory source).1 = (splitDirectory sibling).1)

include rooted listed beside

theorem resolveDocument_sibling :
    g.resolveDocument source (toSibling sibling) = some sibling ↔ Clear b source sibling := by
  obtain ⟨directory, segment, split⟩ : ∃ directory segment,
      splitDirectory sibling = (directory, segment) := ⟨_, _, rfl⟩
  obtain ⟨flat, name⟩ := splitDirectory_spec split
  have reference : toSibling sibling = "." ++ "/" ++ segment := by
    rw [toSibling, split]
    rfl
  have below : splitDirectory (toSibling sibling) = (some ".", segment) := by
    rw [reference, splitDirectory_join "." flat]
  have plain : String.ofList (dropDotSlashes (toSibling sibling).toList) = segment := by
    have chars : (toSibling sibling).toList = '.' :: '/' :: segment.toList := by
      simp [reference, String.toList_append]
    rw [chars, dropDotSlashes, dropDotSlashes_flat flat, String.ofList_toList]
  rw [split] at beside
  by_cases exact : toSibling sibling ∈ b.documents.keys
  · rw [resolveDocument, if_pos (rooted.contains_iff.mpr exact), Option.some.injEq]
    refine ⟨fun same => ⟨fun other _ eq => eq.trans same, fun top => ?_⟩,
      fun clear => clear.exact _ exact rfl⟩
    rw [same, split, Prod.mk.injEq] at below
    rw [beside, below.1] at top
    cases top
  · have other : ¬g.roots.contains (toSibling sibling) = true := mt rooted.contains_iff.mp exact
    have unnamed : ∀ name ∈ b.documents.keys, name = toSibling sibling → name = sibling :=
      fun name mem eq => absurd (eq ▸ mem) exact
    rw [resolveDocument, if_neg other]
    cases directory with
    | some directory =>
      have joined : directory ++ "/" ++ segment = sibling := name.symm
      simp only [beside, Option.map_some, plain, joined, Option.filter_some,
        rooted.contains_iff.mpr listed, if_true, true_iff]
      refine ⟨unnamed, fun top => ?_⟩
      rw [beside] at top
      cases top
    | none =>
      have alike (name : String) : name ∈ g.roots.keys.filter (fun d => (splitDirectory d).2 ==
          segment) ↔ name ∈ b.documents.keys ∧ (splitDirectory name).2 = segment := by
        rw [List.mem_filter, rooted.documents, beq_iff_eq]
      have own := (alike sibling).mpr ⟨listed, by rw [split]⟩
      simp only [beside, Option.map_none, Option.filter_none, below]
      refine (only_eq_some_iff (rooted.sorted.keys_nodup.filter _) own).trans
        ⟨fun only => ⟨unnamed, fun _ other mem same => ?_⟩, fun clear other mem => ?_⟩
      · rw [split] at same
        exact only other ((alike other).mpr ⟨mem, same⟩)
      · obtain ⟨mem, same⟩ := (alike other).mp mem
        exact clear.alone beside other mem (by rw [same, split])

end Sibling

/-- Linking nodes leaves what references are looked up in. -/
theorem load_eq_ok {b : Bundle} {g : Graph} (h : load b = .ok g) :
    ∃ g₀, readAll b = .ok g₀ ∧ g.root? = g₀.root? ∧ g.resolve = g₀.resolve := by
  obtain ⟨g₀, read, eq, -⟩ := exists_readAll_of_load h
  rw [eq]
  exact ⟨g₀, read, rfl, rfl⟩

/-- A reference to a document beside the one in which it stands leads to the root of that document
exactly if it is clear, whatever else there is in the bundle. -/
theorem resolve_sibling {b : Bundle} {g : Graph} (read : readAll b = .ok g)
    {source sibling : String} (listed : sibling ∈ b.documents.keys) (free : '#' ∉ sibling.toList)
    (beside : (splitDirectory source).1 = (splitDirectory sibling).1) :
    ∃ root n, g.root? sibling = some root ∧ g.node? root = some n ∧ n.document = sibling ∧
      n.pointer = [] ∧
      (g.resolve source (toSibling sibling) = some root ↔ Clear b source sibling) ∧
      (∀ m, m.document = source → m.reference = some { raw := toSibling sibling } →
        (g.link m = .ok { m with reference := some ⟨toSibling sibling, some root⟩ } ↔
          Clear b source sibling)) ∧
      ∀ g', load b = .ok g' → g'.root? sibling = some root ∧
        g'.resolve source (toSibling sibling) = g.resolve source (toSibling sibling) := by
  have rooted := rooted_of_readAll read
  obtain ⟨root, found⟩ := Assoc.contains_iff_exists.mp (rooted.contains_iff.mpr listed)
  have found : g.root? sibling = some root := found
  obtain ⟨n, here, document, pointer⟩ := rooted.tops _ (Assoc.mem_of_get? found)
  have leads : g.resolve source (toSibling sibling) = some root ↔ Clear b source sibling := by
    rw [resolve_document g source (toSibling_ne_empty sibling) (toSibling_free free),
      ← resolveDocument_sibling rooted listed beside, Option.bind_eq_some_iff]
    constructor
    · rintro ⟨target, document, other⟩
      rw [document, rooted.root?_inj other found]
    · intro document
      exact ⟨sibling, document, found⟩
  refine ⟨root, n, found, here, document, pointer, leads, fun m own reference => ?_,
    fun g' load => ?_⟩
  · rw [← leads, link, reference]
    dsimp only
    rw [own]
    cases g.resolve source (toSibling sibling) with
    | none => simp
    | some target => simp
  · obtain ⟨g₀, read', roots, resolves⟩ := load_eq_ok load
    cases read.symm.trans read'
    rw [roots, resolves]
    exact ⟨found, rfl⟩

set_option maxRecDepth 100000 in
/-- Below a directory, documents of the same last segment elsewhere do not count. -/
theorem resolve_sibling_crowded :
    let schema : Json := .object [("$ref", .string "./b.json")]
    let b : Bundle := ⟨[("b.json", "{}"), ("x/a.json", schema.render), ("x/b.json", "{}"),
      ("x/y/b.json", "{}")]⟩
    ∃ g root, readAll b = .ok g ∧ "x/b.json" ∈ b.documents.keys ∧ '#' ∉ "x/b.json".toList ∧
      (splitDirectory "x/a.json").1 = (splitDirectory "x/b.json").1 ∧
      g.root? "x/b.json" = some root ∧ toSibling "x/b.json" = "./b.json" ∧
      Clear b "x/a.json" "x/b.json" ∧ g.resolve "x/a.json" "./b.json" = some root := by
  intro schema b
  have runs : (load b).isOk = true := by
    rw [load_eq_loadBytes]
    decide +kernel
  obtain ⟨g', load⟩ := Outcome.exists_of_isOk runs
  obtain ⟨g, read, -⟩ := load_eq_ok load
  have listed : "x/b.json" ∈ b.documents.keys := by decide
  have clear : Clear b "x/a.json" "x/b.json" := ⟨by decide, by decide⟩
  have beside : (splitDirectory "x/a.json").1 = (splitDirectory "x/b.json").1 := by decide
  obtain ⟨root, -, found, -, -, -, leads, -⟩ := resolve_sibling read listed (by decide) beside
  have reference : toSibling "x/b.json" = "./b.json" := by decide
  rw [reference] at leads
  exact ⟨g, root, read, listed, by decide, beside, found, reference, clear, leads.mpr clear⟩

set_option maxRecDepth 100000 in
/-- At the top of the bundle a document elsewhere that ends like the sibling leaves the reference
without a target, and a schema with it does not load. -/
theorem sibling_unresolved :
    let schema : Json := .object [("$ref", .string "./b.json")]
    let b : Bundle := ⟨[("a.json", "{}"), ("b.json", "{}"), ("x/b.json", "{}")]⟩
    let b' : Bundle := b.insert "a.json" schema.render
    (splitDirectory "a.json").1 = (splitDirectory "b.json").1 ∧
      toSibling "b.json" = "./b.json" ∧
      (∀ name ∈ b.documents.keys, '#' ∉ name.toList) ∧
      (∃ g root, load b = .ok g ∧ g.root? "b.json" = some root ∧
        g.resolve "a.json" "./b.json" = none) ∧
      load b' = .error (.unresolvedReference "./b.json" "a.json#") := by
  intro schema b b'
  have looked : ((load b).toOption.map fun g =>
      (g.root? "b.json", g.resolve "a.json" "./b.json")) = some (some 1, none) := by
    rw [load_eq_loadBytes]
    decide +kernel
  have fails : Outcome.fault id (load b') =
      some (SchemaError.unresolvedReference "./b.json" "a.json#") := by
    rw [load_eq_loadBytes]
    decide +kernel
  obtain ⟨g, loaded, found⟩ := Option.map_eq_some_iff.mp looked
  rw [Prod.mk.injEq] at found
  refine ⟨by decide, by decide, by decide,
    ⟨g, 1, Outcome.toOption_eq_some.mp loaded, found⟩, ?_⟩
  cases failed : load b' with
  | ok g => simp [failed, Outcome.fault] at fails
  | error e => simpa [failed, Outcome.fault] using fails

end TypedArchive.Graph
