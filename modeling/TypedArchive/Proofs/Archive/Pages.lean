import TypedArchive.Archive.Contents
import TypedArchive.Proofs.Archive.Layout
import TypedArchive.Proofs.Assoc

/-! The page list of an archive and the bodies of its pages. Inserting a page keeps both in step as
long as the reference that the list gets is read as one. -/

namespace TypedArchive.Archive

theorem FileRef.pageId?_page (refClass : Option String) (id : String) :
    pageId? ⟨refClass, pagesDirectory ++ "/" ++ id⟩ = if FlatName id then some id else none := by
  have path : (pagesDirectory ++ "/" ++ id).toList =
      pagesDirectory.toList ++ '/' :: id.toList := by
    simp [String.toList_append]
  have starts : pagesDirectory.toList.isPrefixOf (pagesDirectory ++ "/" ++ id).toList = true := by
    rw [path, List.isPrefixOf_iff_prefix]
    exact List.prefix_append _ _
  have rest : (pagesDirectory ++ "/" ++ id).toList.drop pagesDirectory.length =
      '/' :: id.toList := by
    rw [path]
    exact List.drop_left
  simp only [pageId?, starts, rest, FlatName, String.ofList_toList]
  by_cases empty : id = ""
  · simp [empty]
  · by_cases slash : '/' ∈ id.toList <;> simp [empty, slash]

namespace ReferenceConvention

variable (conv : ReferenceConvention)

/-- In a reference to a page neither its path nor the class of pages takes the place of its own
class. -/
def KeepsClass (id : String) : Prop :=
  (conv.classField = conv.refField → conv.className = pagesDirectory ++ "/" ++ id) ∧
    (conv.classField ≠ conv.refField → conv.classField = conv.refClassField →
      conv.className = conv.pageRefClass)

/-- The reference that the page list gets for a page is read as one. -/
def ListsPage (id : String) : Prop := FlatName id ∧ conv.KeepsClass id

instance (id : String) : Decidable (conv.KeepsClass id) :=
  inferInstanceAs (Decidable (_ ∧ _))

instance (id : String) : Decidable (conv.ListsPage id) :=
  inferInstanceAs (Decidable (_ ∧ _))

theorem textOf_pageRef (id key : String) :
    textOf (conv.pageRef id) key =
      if key = conv.refField then some (pagesDirectory ++ "/" ++ id)
      else if key = conv.refClassField then some conv.pageRefClass
      else if key = conv.classField then some conv.className else none := by
  simp only [textOf, Record.getString?, Record.get?, pageRef, Record.insert, Assoc.get?_insert,
    Assoc.get?_nil, Option.bind_none, Option.or_none, Option.orElse_eq_orElse,
    Option.orElse_eq_or]
  repeat' split
  all_goals rfl

theorem textOf_pageRef_classField (id : String) :
    textOf (conv.pageRef id) conv.classField = some conv.className ↔ conv.KeepsClass id := by
  rw [textOf_pageRef]
  by_cases first : conv.classField = conv.refField
  · rw [if_pos first, Option.some.injEq, eq_comm]
    exact ⟨fun eq => ⟨fun _ => eq, fun ne => absurd first ne⟩, fun h => h.1 first⟩
  · rw [if_neg first]
    by_cases second : conv.classField = conv.refClassField
    · rw [if_pos second, Option.some.injEq, eq_comm]
      exact ⟨fun eq => ⟨fun eq' => absurd eq' first, fun _ _ => eq⟩, fun h => h.2 first second⟩
    · rw [if_neg second, if_pos rfl]
      exact ⟨fun _ => ⟨fun eq => absurd eq first, fun _ eq => absurd eq second⟩, fun _ => rfl⟩

/-- The list's own references are read as the pages that they were made for. -/
theorem listedId?_pageRef (id : String) :
    Contents.listedId? conv (conv.pageRef id).toData =
      if conv.ListsPage id then some id else none := by
  have path : textOf (conv.pageRef id) conv.refField = some (pagesDirectory ++ "/" ++ id) := by
    rw [textOf_pageRef, if_pos rfl]
  have listed : Contents.listedId? conv (conv.pageRef id).toData =
      (conv.readRecord (conv.pageRef id)).bind FileRef.pageId? := rfl
  rw [listed, readRecord, read, path, Option.map_some]
  have own := conv.textOf_pageRef_classField id
  by_cases kept : conv.KeepsClass id
  · rw [if_pos (own.mpr kept), Option.bind_some, FileRef.pageId?_page]
    exact (if_congr (and_iff_left kept) rfl rfl).symm
  · rw [if_neg fun h => kept (own.mp h), Option.bind_none, if_neg fun lists => kept lists.2]

end ReferenceConvention

namespace Contents

variable {g g' : Contents} {ids : List String} {conv : ReferenceConvention}

theorem listedIds_eq_ok {index : Nat} {items : List Data} :
    listedIds conv index items = .ok ids ↔ items.map (listedId? conv) = ids.map some := by
  induction items generalizing index ids with
  | nil =>
    rw [listedIds, List.map_nil, Except.ok.injEq, eq_comm (b := List.map some ids),
      List.map_eq_nil_iff, eq_comm]
  | cons item items ih =>
    rw [listedIds, List.map_cons]
    cases listedId? conv item with
    | none =>
      constructor
      · nofun
      · intro h
        cases ids <;> simp at h
    | some id =>
      simp only [Outcome.bind_eq_ok, Outcome.pure_eq_ok, ih]
      constructor
      · rintro ⟨rest, h, rfl⟩
        rw [List.map_cons, h]
      · intro h
        cases ids with
        | nil => cases h
        | cons id' ids =>
          obtain ⟨same, rest⟩ := List.cons.inj h
          cases same
          exact ⟨ids, rest, rfl⟩

/-- An item that is no page reference makes the list unreadable from its place on. -/
theorem listedIds_concat_error {index : Nat} {items : List Data} {item : Data}
    (listed : listedIds conv index items = .ok ids) (other : listedId? conv item = none) :
    listedIds conv index (items ++ [item]) = .error (.invalidDocument documentPath
      (.notAPageReference conv.pagesField (index + ids.length))) := by
  induction items generalizing index ids with
  | nil =>
    cases listed
    rw [List.nil_append, listedIds, other]
    rfl
  | cons first items ih =>
    rw [listedIds] at listed
    rw [List.cons_append, listedIds]
    cases found : listedId? conv first with
    | none =>
      rw [found] at listed
      cases listed
    | some id =>
      rw [found] at listed
      obtain ⟨rest, others, eq⟩ := Outcome.bind_eq_ok.mp listed
      cases eq
      simp only [ih others]
      rw [List.length_cons, Nat.add_right_comm, Nat.add_assoc]
      rfl

/-- The items of the page list, none if there is no list. -/
def listItems (g : Contents) : List Data :=
  ((g.document.get? g.references.pagesField).bind Data.asArray?).getD []

theorem listItems_of_pageIds (listed : g.pageIds = .ok ids) :
    listedIds g.references 0 g.listItems = .ok ids := by
  rw [pageIds] at listed
  rw [listItems]
  split at listed
  · next none =>
    rw [none]
    exact listed
  · next items list =>
    rw [list]
    exact listed
  · cases listed

theorem listItems_of_list {items : List Data}
    (list : g.document.get? g.references.pagesField = some (.array items)) :
    g.listItems = items := by
  rw [listItems, list]
  rfl

/-- The contents with another page list. -/
def relist (g : Contents) (items : List Data) : Contents :=
  { g with document := g.document.insert g.references.pagesField (.array items) }

theorem list_relist (g : Contents) (items : List Data) :
    (g.relist items).document.get? (g.relist items).references.pagesField = some (.array items) :=
  Assoc.get?_insert_self _ _ _

theorem listItems_relist (g : Contents) (items : List Data) : (g.relist items).listItems = items :=
  listItems_of_list (g.list_relist items)

theorem pageIds_relist (g : Contents) (items : List Data) :
    (g.relist items).pageIds = listedIds g.references 0 items := by
  rw [pageIds, list_relist]
  rfl

theorem listPage_eq_relist (g : Contents) (id : String) :
    g.listPage id = g.relist (g.listItems ++ [(g.references.pageRef id).toData]) := rfl

/-- Listing a page appends it, and spoils the list if the reference to it is read as none. -/
theorem pageIds_listPage_of_listed (listed : g.pageIds = .ok ids) (id : String) :
    (g.listPage id).pageIds = if g.references.ListsPage id then .ok (ids ++ [id])
      else .error (.invalidDocument documentPath
        (.notAPageReference g.references.pagesField ids.length)) := by
  have items := listItems_of_pageIds listed
  have own := g.references.listedId?_pageRef id
  rw [listPage_eq_relist, pageIds_relist]
  split
  · next lists =>
    rw [if_pos lists] at own
    rw [listedIds_eq_ok, List.map_append, List.map_append, listedIds_eq_ok.mp items,
      List.map_singleton, List.map_singleton, own]
  · next lists =>
    rw [if_neg lists] at own
    rw [listedIds_concat_error items own, Nat.zero_add]

/-- Edits in place: what was changed before a failure stays changed. -/
abbrev Edit := ExceptT ArchiveError (StateM Contents)

/-- Puts a page under its own identifier, and lists it unless it is listed, one step after the
other. -/
def insertPageInPlace (page : Record) : Edit String := do
  let g ← get
  let some id := page.getString? g.references.pageIdField
    | throw (.invalidDocument (pagePath "<new>") (.noIdentifier g.references.pageIdField))
  let listed ← ExceptT.mk (pure g.pageIds)
  unless id ∈ listed do
    match g.document.get? g.references.pagesField with
    | some (.array _) | none => set (g.listPage id)
    | some _ => throw (.invalidDocument documentPath (.notAList g.references.pagesField))
  modify fun g => g.insertBody id page
  return id

theorem Edit.get_bind_run {α : Type} (f : Contents → Edit α) (g : Contents) :
    (get >>= f : Edit α).run.run g = (f g).run.run g := rfl

theorem Edit.pure_ok_bind {α β : Type} (a : α) (f : α → Edit β) :
    (ExceptT.mk (pure (.ok a)) >>= f : Edit β) = f a := rfl

theorem insertPage_eq_ok {page : Record} {id : String} (listed : g.pageIds = .ok ids)
    (own : page.getString? g.references.pageIdField = some id) :
    g.insertPage page = .ok (id, (if id ∈ ids then g else g.listPage id).insertBody id page) := by
  rw [insertPage, own, listed]
  rfl

/-- Inserting a page changes nothing when it fails. -/
theorem insertPageInPlace_run (g : Contents) (page : Record) :
    (insertPageInPlace page).run.run g =
      match g.insertPage page with
      | .ok (id, g') => (.ok id, g')
      | .error e => (.error e, g) := by
  rw [insertPageInPlace, Edit.get_bind_run]
  cases own : page.getString? g.references.pageIdField with
  | none =>
    rw [insertPage, own]
    rfl
  | some id =>
    cases listed : g.pageIds with
    | error e =>
      rw [insertPage, own, listed]
      rfl
    | ok ids =>
      rw [insertPage_eq_ok listed own]
      dsimp only
      rw [Edit.pure_ok_bind]
      by_cases mem : id ∈ ids
      · rw [if_pos mem, if_pos mem]
        rfl
      · rw [if_neg mem, if_neg mem]
        cases list : g.document.get? g.references.pagesField with
        | none => rfl
        | some d =>
          cases d with
          | array items => rfl
          | _ =>
            rw [pageIds, list] at listed
            cases listed

/-- A list with an identifier, which is appended unless it is there. -/
def listWith (ids : List String) (id : String) : List String :=
  if id ∈ ids then ids else ids ++ [id]

theorem mem_listWith {id other : String} : other ∈ listWith ids id ↔ other ∈ ids ∨ other = id := by
  rw [listWith]
  split
  · next mem => exact ⟨Or.inl, fun h => h.elim (·) fun eq => eq ▸ mem⟩
  · rw [List.mem_append, List.mem_singleton]

/-- The page list of the contents has a page, or gets a readable reference to it. -/
def Lists (g : Contents) (ids : List String) (id : String) : Prop :=
  id ∈ ids ∨ g.references.ListsPage id

instance (g : Contents) (ids : List String) (id : String) : Decidable (g.Lists ids id) :=
  inferInstanceAs (Decidable (_ ∨ _))

/-- Nothing differs but one page and the end of the page list. -/
structure AgreesBeside (id : String) (g g' : Contents) : Prop where
  pages : ∀ other, other ≠ id → g'.page? other = g.page? other
  fields : ∀ name, name ≠ g.references.pagesField → g'.document.get? name = g.document.get? name
  items : g.listItems <+: g'.listItems
  typeName : g'.document.typeName = g.document.typeName
  extra : g'.document.extra = g.document.extra
  rest : { g' with document := g.document, pages := g.pages } = g

theorem AgreesBeside.references {id : String} (beside : AgreesBeside id g g') :
    g'.references = g.references :=
  (congrArg Contents.references beside.rest :)

/-- What an insertion makes of contents that list the given identifiers. -/
structure Inserted (ids : List String) (page : Record) (id : String) (g g' : Contents) : Prop where
  own : page.getString? g.references.pageIdField = some id
  body : g'.page? id = some page
  beside : AgreesBeside id g g'
  listed : g.Lists ids id → g'.pageIds = .ok (listWith ids id)
  valid : g.Lists ids id → g.validatePages = .ok () → g'.validatePages = .ok ()
  unreadable : ¬g.Lists ids id → g'.pageIds = .error (.invalidDocument documentPath
    (.notAPageReference g.references.pagesField ids.length))

theorem validatePages_eq_ok (listed : g.pageIds = .ok ids) :
    g.validatePages = .ok () ↔ ∀ id ∈ ids, ∃ page, g.page? id = some page := by
  have bodies : (ids.find? fun id => !g.pages.contains id) = none ↔
      ∀ id ∈ ids, ∃ page, g.page? id = some page := by
    simp [List.find?_eq_none, Assoc.contains_iff_exists, page?]
  rw [validatePages, ← bodies]
  simp only [Outcome.bind_eq_ok, listed, Except.ok.injEq, exists_eq_left']
  split
  · next found => simp [found]
  · next none => simp [none]

theorem page?_insertBody (g : Contents) (id : String) (page : Record) (other : String) :
    (g.insertBody id page).page? other = if other = id then some page else g.page? other :=
  Assoc.get?_insert ..

/-- A change of one body and perhaps of the list leaves the rest. -/
theorem agreesBeside_insert (g : Contents) (ids : List String) (id : String) (page : Record) :
    AgreesBeside id g ((if id ∈ ids then g else g.listPage id).insertBody id page) := by
  split
  · exact
      { pages := fun other ne => by rw [page?_insertBody, if_neg ne]
        fields := fun _ _ => rfl
        items := List.prefix_refl _
        typeName := rfl
        extra := rfl
        rest := rfl }
  · exact
      { pages := fun other ne => by rw [page?_insertBody, if_neg ne]; rfl
        fields := fun _ ne => Assoc.get?_insert_of_ne _ _ ne
        items := ⟨_, (g.listItems_relist _).symm⟩
        typeName := rfl
        extra := rfl
        rest := rfl }

theorem inserted (listed : g.pageIds = .ok ids) {page : Record} {id : String}
    (own : page.getString? g.references.pageIdField = some id) :
    Inserted ids page id g ((if id ∈ ids then g else g.listPage id).insertBody id page) := by
  have list : ((if id ∈ ids then g else g.listPage id).insertBody id page).pageIds =
      if g.Lists ids id then .ok (listWith ids id) else .error (.invalidDocument documentPath
        (.notAPageReference g.references.pagesField ids.length)) := by
    by_cases mem : id ∈ ids
    · have lists : g.Lists ids id := Or.inl mem
      rw [if_pos mem, if_pos lists, listWith, if_pos mem]
      exact listed
    · have lists : g.Lists ids id ↔ g.references.ListsPage id := or_iff_right mem
      rw [if_neg mem, listWith, if_neg mem, if_congr lists rfl rfl]
      exact pageIds_listPage_of_listed listed id
  have beside := g.agreesBeside_insert ids id page
  have body : ((if id ∈ ids then g else g.listPage id).insertBody id page).page? id = some page := by
    rw [page?_insertBody, if_pos rfl]
  refine
    { own, body, beside
      listed := fun lists => list.trans (if_pos lists)
      valid := fun lists valid => ?_
      unreadable := fun lists => list.trans (if_neg lists) }
  rw [validatePages_eq_ok (list.trans (if_pos lists))]
  intro other mem
  by_cases eq : other = id
  · exact ⟨page, eq ▸ body⟩
  · rw [beside.pages other eq]
    exact (validatePages_eq_ok listed).mp valid other ((mem_listWith.mp mem).resolve_right eq)

theorem Lists.listWith_iff {id : String} (lists : g.Lists ids id) (beside : AgreesBeside id g g')
    (other : String) : g'.Lists (listWith ids id) other ↔ g.Lists ids other := by
  rw [Lists, Lists, beside.references, mem_listWith, or_assoc]
  constructor
  · rintro (mem | rfl | lists')
    · exact Or.inl mem
    · exact lists
    · exact Or.inr lists'
  · exact Or.imp_right Or.inr

/-- Inserts pages one after the other, whether or not each succeeds. -/
def insertPages (g : Contents) (pages : List Record) : Contents :=
  pages.foldl (fun g page => ((insertPageInPlace page).run.run g).2) g

/-- The identifiers that pages say they have. -/
def ownIds (g : Contents) (pages : List Record) : List String :=
  pages.filterMap fun page => page.getString? g.references.pageIdField

theorem insertPageInPlace_of_inserted (listed : g.pageIds = .ok ids) {page : Record} {id : String}
    (own : page.getString? g.references.pageIdField = some id) :
    ∃ g', (insertPageInPlace page).run.run g = (.ok id, g') ∧ Inserted ids page id g g' := by
  refine ⟨_, ?_, inserted listed own⟩
  rw [insertPageInPlace_run, insertPage_eq_ok listed own]

theorem insertPageInPlace_of_anonymous {page : Record}
    (anonymous : page.getString? g.references.pageIdField = none) :
    (insertPageInPlace page).run.run g = (.error (.invalidDocument (pagePath "<new>")
      (.noIdentifier g.references.pageIdField)), g) := by
  rw [insertPageInPlace_run, insertPage, anonymous]

/-- With a list that cannot be read no page is inserted. -/
theorem insertPages_of_unreadable {e : ArchiveError} (unreadable : g.pageIds = .error e)
    (pages : List Record) : g.insertPages pages = g := by
  induction pages with
  | nil => rfl
  | cons page pages ih =>
    have fails : ((insertPageInPlace page).run.run g).2 = g := by
      rw [insertPageInPlace_run, insertPage, unreadable]
      cases page.getString? g.references.pageIdField <;> rfl
    rw [insertPages, List.foldl_cons, fails]
    exact ih

theorem insertPages_of_lists (listed : g.pageIds = .ok ids) {pages : List Record}
    (lists : ∀ id ∈ g.ownIds pages, g.Lists ids id) :
    (g.insertPages pages).pageIds = .ok ((g.ownIds pages).foldl listWith ids) ∧
      (g.validatePages = .ok () → (g.insertPages pages).validatePages = .ok ()) := by
  induction pages generalizing g ids with
  | nil => exact ⟨listed, id⟩
  | cons page pages ih =>
    rw [insertPages, List.foldl_cons]
    rw [ownIds, List.filterMap_cons] at lists ⊢
    cases own : page.getString? g.references.pageIdField with
    | none =>
      rw [own] at lists
      rw [insertPageInPlace_of_anonymous own]
      exact ih listed lists
    | some id =>
      rw [own] at lists
      obtain ⟨g', run, step⟩ := insertPageInPlace_of_inserted listed own
      have first := lists id List.mem_cons_self
      have references := step.beside.references
      have rest : ∀ id' ∈ g'.ownIds pages, g'.Lists (listWith ids id) id' := by
        rw [ownIds, references]
        exact fun id' mem => (first.listWith_iff step.beside id').mpr
          (lists id' (List.mem_cons_of_mem _ mem))
      obtain ⟨list, valid⟩ := ih (step.listed first) rest
      rw [ownIds, references] at list
      rw [run]
      exact ⟨list, fun before => valid (step.valid first before)⟩

theorem insertPages_unreadable (listed : g.pageIds = .ok ids) {pages : List Record} {id : String}
    (mem : id ∈ g.ownIds pages) (unlisted : ¬g.Lists ids id) :
    ∃ e, (g.insertPages pages).pageIds = .error e := by
  induction pages generalizing g ids with
  | nil => cases mem
  | cons page pages ih =>
    rw [insertPages, List.foldl_cons]
    rw [ownIds, List.filterMap_cons] at mem
    cases own : page.getString? g.references.pageIdField with
    | none =>
      rw [own] at mem
      rw [insertPageInPlace_of_anonymous own]
      exact ih listed mem unlisted
    | some first =>
      rw [own] at mem
      obtain ⟨g', run, step⟩ := insertPageInPlace_of_inserted listed own
      have references := step.beside.references
      rw [run]
      by_cases lists : g.Lists ids first
      · have later : id ∈ g'.ownIds pages := by
          rw [ownIds, references]
          refine (List.mem_cons.mp mem).resolve_left ?_
          rintro rfl
          exact unlisted lists
        exact ih (step.listed lists) later
          (mt (lists.listWith_iff step.beside id).mp unlisted)
      · have stuck : g'.insertPages pages = g' :=
          insertPages_of_unreadable (step.unreadable lists) pages
        exact ⟨_, (congrArg pageIds stuck).trans (step.unreadable lists)⟩

/-- A page that says no identifier is refused, and each other one is put under its own. The list
stays readable and in step with the bodies as long as it takes only references that are read as
pages, and is lost with the first that is not. -/
theorem pageIds_insertPages (listed : g.pageIds = .ok ids) :
    (∀ page : Record,
      (page.getString? g.references.pageIdField = none ∧
        (insertPageInPlace page).run.run g = (.error (.invalidDocument (pagePath "<new>")
          (.noIdentifier g.references.pageIdField)), g)) ∨
      ∃ id g', (insertPageInPlace page).run.run g = (.ok id, g') ∧ Inserted ids page id g g') ∧
    ∀ pages : List Record,
      ((∀ id ∈ g.ownIds pages, g.Lists ids id) →
        (g.insertPages pages).pageIds = .ok ((g.ownIds pages).foldl listWith ids) ∧
        (g.validatePages = .ok () → (g.insertPages pages).validatePages = .ok ())) ∧
      ((∃ id ∈ g.ownIds pages, ¬g.Lists ids id) →
        ∃ e, (g.insertPages pages).pageIds = .error e) := by
  refine ⟨fun page => ?_, fun pages => ⟨insertPages_of_lists listed, ?_⟩⟩
  · cases own : page.getString? g.references.pageIdField with
    | none => exact Or.inl ⟨rfl, insertPageInPlace_of_anonymous own⟩
    | some id => exact Or.inr ⟨id, insertPageInPlace_of_inserted listed own⟩
  · rintro ⟨id, mem, unlisted⟩
    exact insertPages_unreadable listed mem unlisted

/-- Contents without pages. -/
def blank : Contents :=
  { document := { typeName := "Document" }, metadata := { typeName := "Meta" } }

def blankPage (id : String) : Record :=
  ({ typeName := "Page" } : Record).insert "do_objectID" (.string id)

theorem pageIds_insertPages_blank :
    blank.pageIds = .ok [] ∧
      (blank.insertPages [blankPage "A", blankPage "B", blankPage "A"]).pageIds = .ok ["A", "B"] ∧
      (blank.insertPages [blankPage "A", blankPage "B", blankPage "A"]).validatePages = .ok () ∧
      ∃ e, (blank.insertPages [blankPage "A", blankPage "a/b"]).pageIds = .error e := by
  have listed : blank.pageIds = .ok [] := by decide
  obtain ⟨list, valid⟩ := ((pageIds_insertPages listed).2
    [blankPage "A", blankPage "B", blankPage "A"]).1 (by decide)
  exact ⟨listed, list, valid (by decide), ((pageIds_insertPages listed).2
    [blankPage "A", blankPage "a/b"]).2 (by decide)⟩

/-- Identifiers that are empty or hold a slash are taken, but not read again, and no further page
can be inserted. -/
theorem insertPage_unreadable :
    blank.pageIds = .ok [] ∧ ∀ id ∈ ["", "a/b"], ∃ g' e,
      blank.insertPage (blankPage id) = .ok (id, g') ∧ g'.pageIds = .error e ∧
      g'.validatePages = .error e ∧ g'.insertPage (blankPage "A") = .error e := by
  refine ⟨by decide, ?_⟩
  intro id mem
  refine ⟨(blank.listPage id).insertBody id (blankPage id),
    .invalidDocument documentPath (.notAPageReference "pages" 0), ?_⟩
  revert id
  decide

end Contents

end TypedArchive.Archive
