import TypedArchive.Proofs.Archive.Pages

/-! Removing a page takes all of its references out of the page list and its body out of the bodies,
and changes nothing else. It takes back the insertion of a page that was not there. -/

namespace TypedArchive.Archive

/-- The class, the path and the class referred to stand under three different keys. -/
def ReferenceConvention.KeysDistinct (conv : ReferenceConvention) : Prop :=
  [conv.classField, conv.refField, conv.refClassField].Nodup

instance (conv : ReferenceConvention) : Decidable conv.KeysDistinct :=
  inferInstanceAs (Decidable (List.Nodup _))

theorem ReferenceConvention.KeysDistinct.keepsClass {conv : ReferenceConvention}
    (distinct : conv.KeysDistinct) (id : String) : conv.KeepsClass id := by
  simp only [KeysDistinct, List.nodup_cons, List.mem_cons, List.not_mem_nil, or_false, not_or]
    at distinct
  exact ⟨fun eq => absurd eq distinct.1.1, fun _ eq => absurd eq distinct.1.2⟩

namespace Contents

variable {g : Contents} {ids : List String} {id : String}

/-- Whether an item of the page list is kept when a page is removed. -/
def keeps (conv : ReferenceConvention) (id : String) (item : Data) : Bool :=
  listedId? conv item != some id

theorem listedIds_filter {conv : ReferenceConvention} {items : List Data}
    (listed : listedIds conv 0 items = .ok ids) (id : String) :
    listedIds conv 0 (items.filter (keeps conv id)) = .ok (ids.filter (· != id)) := by
  rw [listedIds_eq_ok] at listed ⊢
  have kept : items.filter (keeps conv id) =
      items.filter ((· != some id) ∘ listedId? conv) := rfl
  have same : (fun other => some other != some id) = (· != id) := by
    funext other
    rw [Bool.eq_iff_iff, bne_iff_ne, bne_iff_ne, ne_eq, Option.some.injEq]
  rw [kept, ← List.filter_map, listed, List.filter_map, Function.comp_def, same]

theorem relist_relist (g : Contents) (items items' : List Data) :
    (g.relist items).relist items' = g.relist items' := by
  simp only [relist, Record.insert, Assoc.insert_insert]

theorem relist_of_list {items : List Data} (sorted : g.document.fields.Sorted)
    (list : g.document.get? g.references.pagesField = some (.array items)) :
    g.relist items = g := by
  rw [relist, Record.insert, sorted.insert_of_get? list]

theorem unlistPage_of_list {items : List Data}
    (list : g.document.get? g.references.pagesField = some (.array items)) (id : String) :
    g.unlistPage id = g.relist (items.filter (keeps g.references id)) := by
  rw [unlistPage, list]
  rfl

theorem filter_keeps {conv : ReferenceConvention} {items : List Data}
    (unlisted : ∀ item ∈ items, listedId? conv item ≠ some id) :
    items.filter (keeps conv id) = items :=
  List.filter_eq_self.mpr fun item mem => bne_iff_ne.mpr (unlisted item mem)

/-- A page that no item refers to is out of the list already. -/
theorem unlistPage_of_unlisted (sorted : g.document.fields.Sorted)
    (unlisted : ∀ item ∈ g.listItems, listedId? g.references item ≠ some id) :
    g.unlistPage id = g := by
  cases list : g.document.get? g.references.pagesField with
  | none => rw [unlistPage, list]
  | some d =>
    cases d with
    | array items =>
      rw [listItems_of_list list] at unlisted
      rw [unlistPage_of_list list, filter_keeps unlisted, relist_of_list sorted list]
    | _ => rw [unlistPage, list]

theorem listItems_unlistPage (g : Contents) (id : String) :
    (g.unlistPage id).listItems = g.listItems.filter (keeps g.references id) := by
  cases list : g.document.get? g.references.pagesField with
  | none =>
    rw [unlistPage, list]
    simp [listItems, list]
  | some d =>
    cases d with
    | array items =>
      rw [unlistPage_of_list list, listItems_of_list list, listItems_relist]
    | _ =>
      rw [unlistPage, list]
      simp [listItems, list, Data.asArray?]

/-- A page list that can be read is missing, or is an array of page references. -/
theorem list_of_pageIds (listed : g.pageIds = .ok ids) :
    (g.document.get? g.references.pagesField = none ∧ ids = []) ∨
      ∃ items, g.document.get? g.references.pagesField = some (.array items) ∧
        listedIds g.references 0 items = .ok ids := by
  rw [pageIds] at listed
  split at listed
  · next none =>
    cases listed
    exact Or.inl ⟨none, rfl⟩
  · next items list => exact Or.inr ⟨items, list, listed⟩
  · cases listed

theorem pageIds_removePage (listed : g.pageIds = .ok ids) (id : String) :
    (g.removePage id).pageIds = .ok (ids.filter (· != id)) := by
  -- The bodies play no part in what is listed.
  change (g.unlistPage id).pageIds = _
  rcases list_of_pageIds listed with ⟨none, rfl⟩ | ⟨items, list, listed'⟩
  · rw [unlistPage, none]
    exact listed
  · rw [unlistPage_of_list list, pageIds_relist]
    exact listedIds_filter listed' id

theorem page?_removePage (g : Contents) (id other : String) :
    (g.removePage id).page? other = if other = id then none else g.page? other :=
  Assoc.get?_erase ..

/-- What is left of contents that list the given identifiers when a page is removed. -/
structure Removed (ids : List String) (id : String) (g g' : Contents) : Prop where
  listed : g'.pageIds = .ok (ids.filter (· != id))
  items : g'.listItems = g.listItems.filter (keeps g.references id)
  bare : g.document.get? g.references.pagesField = none → g'.document = g.document
  fields : ∀ name, name ≠ g.references.pagesField → g'.document.get? name = g.document.get? name
  typeName : g'.document.typeName = g.document.typeName
  extra : g'.document.extra = g.document.extra
  bodies : ∀ other, g'.page? other = if other = id then none else g.page? other
  keys : g'.pages.keys = g.pages.keys.filter (· != id)
  rest : { g' with document := g.document, pages := g.pages } = g
  valid : g.validatePages = .ok () → g'.validatePages = .ok ()

theorem removed (listed : g.pageIds = .ok ids) (id : String) :
    Removed ids id g (g.removePage id) where
  listed := pageIds_removePage listed id
  items := g.listItems_unlistPage id
  bare none := by rw [removePage, unlistPage, none]
  fields name ne := by
    rw [removePage, unlistPage]
    split
    · exact Assoc.get?_insert_of_ne _ _ ne
    · rfl
  typeName := by
    rw [removePage, unlistPage]
    split <;> rfl
  extra := by
    rw [removePage, unlistPage]
    split <;> rfl
  bodies := g.page?_removePage id
  keys := Assoc.keys_erase g.pages id
  rest := by
    rw [removePage, unlistPage]
    split <;> rfl
  valid valid := by
    rw [validatePages_eq_ok (pageIds_removePage listed id)]
    intro other mem
    obtain ⟨mem, ne⟩ := List.mem_filter.mp mem
    rw [page?_removePage, if_neg (bne_iff_ne.mp ne)]
    exact (validatePages_eq_ok listed).mp valid other mem

/-- A page whose identifier makes a readable reference, and is neither listed nor has a body. -/
structure Fresh (g : Contents) (page : Record) (id : String) : Prop where
  own : page.getString? g.references.pageIdField = some id
  flat : FlatName id
  unlisted : ∀ item ∈ g.listItems, listedId? g.references item ≠ some id
  bodiless : g.page? id = none

variable {page : Record}

theorem Fresh.not_mem (fresh : g.Fresh page id) (listed : g.pageIds = .ok ids) : id ∉ ids := by
  intro mem
  have mem' : some id ∈ g.listItems.map (listedId? g.references) := by
    rw [listedIds_eq_ok.mp (listItems_of_pageIds listed)]
    exact List.mem_map_of_mem mem
  obtain ⟨item, mem', own⟩ := List.mem_map.mp mem'
  exact fresh.unlisted item mem' own

/-- A reference that was appended is the only one to be taken out again. -/
theorem unlistPage_listPage {items : List Data} (sorted : g.document.fields.Sorted)
    (list : g.document.get? g.references.pagesField = some (.array items))
    (lists : g.references.ListsPage id)
    (unlisted : ∀ item ∈ g.listItems, listedId? g.references item ≠ some id) :
    (g.listPage id).unlistPage id = g := by
  have own : ¬keeps g.references id (g.references.pageRef id).toData = true := by
    rw [keeps, g.references.listedId?_pageRef, if_pos lists, bne_self_eq_false]
    exact Bool.false_ne_true
  have kept : (g.listItems ++ [(g.references.pageRef id).toData]).filter
      (keeps g.references id) = items := by
    rw [List.filter_append, filter_keeps unlisted, List.filter_cons_of_neg own, List.filter_nil,
      List.append_nil, listItems_of_list list]
  rw [listPage_eq_relist, unlistPage_of_list (g.list_relist _), relist_relist]
  exact (congrArg g.relist kept).trans (relist_of_list sorted list)

theorem removePage_insertBody (g : Contents) (id : String) (page : Record) :
    (g.insertBody id page).removePage id = g.removePage id := by
  have erased : (g.insertBody id page).pages.erase id = g.pages.erase id :=
    Assoc.erase_insert g.pages id page
  have list : (g.insertBody id page).document.get? (g.insertBody id page).references.pagesField =
      g.document.get? g.references.pagesField := rfl
  rw [removePage, removePage, erased, unlistPage, unlistPage, list]
  split <;> rfl

/-- Removal takes back an insertion, be it one that fails because the page list cannot be read. -/
theorem removePage_insertPageInPlace {items : List Data} (sorted : g.document.fields.Sorted)
    (list : g.document.get? g.references.pagesField = some (.array items))
    (distinct : g.references.KeysDistinct) (fresh : g.Fresh page id) :
    ((insertPageInPlace page).run.run g).2.removePage id = g := by
  have absent : g.pages.erase id = g.pages :=
    Assoc.erase_of_not_mem (Assoc.get?_eq_none_iff.mp fresh.bodiless)
  rw [insertPageInPlace_run]
  cases listed : g.pageIds with
  | error e =>
    have fails : g.insertPage page = .error e := by rw [insertPage, fresh.own, listed]; rfl
    rw [fails]
    dsimp only
    rw [removePage, unlistPage_of_unlisted sorted fresh.unlisted, absent]
  | ok ids =>
    have lists : g.references.ListsPage id := ⟨fresh.flat, distinct.keepsClass id⟩
    have pages : (g.listPage id).pages = g.pages := rfl
    rw [insertPage_eq_ok listed fresh.own, if_neg (fresh.not_mem listed)]
    dsimp only
    rw [removePage_insertBody, removePage, unlistPage_listPage sorted list lists fresh.unlisted,
      pages, absent]

/-- Removing a page gives its body back, and takes the page and all references to it out of contents
whose page list can be read. It takes back the insertion of a page that was neither listed nor had a
body, where there is a list and its references can be read. -/
theorem takePage_exact (g : Contents) :
    (∀ ids, g.pageIds = .ok ids → ∀ id,
      (g.takePage id).1 = g.page? id ∧ Removed ids id g (g.takePage id).2) ∧
    (∀ items page id, g.document.fields.Sorted →
      g.document.get? g.references.pagesField = some (.array items) →
      g.references.KeysDistinct → g.Fresh page id →
        (((insertPageInPlace page).run.run g).2.takePage id).2 = g ∧
        ∀ ids, g.pageIds = .ok ids → ((insertPageInPlace page).run.run g).1 = .ok id ∧
          (((insertPageInPlace page).run.run g).2.takePage id).1 = some page) := by
  refine ⟨fun ids listed id => ⟨rfl, removed listed id⟩, ?_⟩
  intro items page id sorted list distinct fresh
  refine ⟨removePage_insertPageInPlace sorted list distinct fresh, fun ids listed => ?_⟩
  obtain ⟨g', run, inserted⟩ := insertPageInPlace_of_inserted listed fresh.own
  rw [run]
  exact ⟨rfl, inserted.body⟩

/-- A page list that holds a page twice, and in several guises. -/
def crowded : Contents :=
  let conv : ReferenceConvention := {}
  let held : Json := .string "pages/B"
  { document :=
      { typeName := "Document"
        fields := [("name", .string "N"), ("pages", .array
          [(conv.pageRef "A").toData,
            .union "Entry" none 0 (conv.pageRef "A").toData,
            .record "FileRef" [("_class", .string conv.className)] [("_ref", held)],
            (conv.pageRef "A").toData])] }
    metadata := { typeName := "Meta" }
    pages := [("A", blankPage "A"), ("B", blankPage "B")] }

theorem takePage_crowded :
    crowded.pageIds = .ok ["A", "A", "B", "A"] ∧
      (crowded.takePage "A").1 = some (blankPage "A") ∧
      (crowded.takePage "A").2.pageIds = .ok ["B"] ∧
      (crowded.takePage "A").2.validatePages = .ok () ∧
      crowded.references.KeysDistinct ∧ crowded.Fresh (blankPage "C") "C" ∧
      (((insertPageInPlace (blankPage "C")).run.run crowded).2.takePage "C").2 = crowded := by
  have listed : crowded.pageIds = .ok ["A", "A", "B", "A"] := by decide
  have fresh : crowded.Fresh (blankPage "C") "C" :=
    { own := by decide, flat := by decide, unlisted := by decide, bodiless := by decide }
  obtain ⟨body, removed⟩ := (takePage_exact crowded).1 _ listed "A"
  obtain ⟨back, -⟩ := (takePage_exact crowded).2 _ (blankPage "C") "C" (by decide) rfl
    (by decide) fresh
  exact ⟨listed, body, removed.listed, removed.valid (by decide), by decide, fresh, back⟩

end Contents

end TypedArchive.Archive
