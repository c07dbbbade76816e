import Mathlib.Data.List.Perm.Basic
import TypedArchive.Archive.Codec
import TypedArchive.Proofs.Archive.Entry
import TypedArchive.Proofs.Assoc

/-! Contents of an archive as pieces, one for each entry. What has been read of an archive depends
on its pieces but not on their order. -/

namespace TypedArchive.Archive

/-- What one entry says. -/
inductive Piece where
  | document (r : Record)
  | metadata (r : Record)
  | user (d : Data)
  | page (id : String) (r : Record)
  | workspace (name : String) (v : Json)
  | asset (path : String) (bytes : List UInt8)

/-- The path of the entry for a piece. -/
def Piece.path : Piece → String
  | document _ => documentPath
  | metadata _ => metaPath
  | user _ => userPath
  | page id _ => pagePath id
  | workspace name _ => workspacePath name
  | asset path _ => path

namespace Draft

/-- Adds a piece to what has been read. -/
def put (d : Draft) : Piece → Draft
  | .document r => { d with document := some r }
  | .metadata r => { d with metadata := some r }
  | .user data => { d with user := some data }
  | .page id r => { d with pages := d.pages.insert id r }
  | .workspace name v => { d with workspace := d.workspace.insert name v }
  | .asset path bytes => { d with assets := d.assets.insert path bytes }

/-- The pieces that have been read, in the order in which they are written. -/
def pieces (d : Draft) : List Piece :=
  d.document.toList.map .document ++ (d.metadata.toList.map .metadata ++
    (d.user.toList.map .user ++ (d.pages.map (fun p => .page p.1 p.2) ++
      (d.workspace.map (fun p => .workspace p.1 p.2) ++
        d.assets.map fun p => .asset p.1 p.2))))

theorem put_comm {p q : Piece} (ne : p.path ≠ q.path) (d : Draft) :
    (d.put p).put q = (d.put q).put p := by
  cases p with
  | document r =>
    cases q with
    | document r' => exact absurd rfl ne
    | _ => rfl
  | metadata r =>
    cases q with
    | metadata r' => exact absurd rfl ne
    | _ => rfl
  | user data =>
    cases q with
    | user data' => exact absurd rfl ne
    | _ => rfl
  | page id r =>
    cases q with
    | page id' r' =>
      have keys : id ≠ id' := fun eq => ne (congrArg pagePath eq)
      exact congrArg (fun pages => { d with pages }) (Assoc.insert_comm keys d.pages r r')
    | _ => rfl
  | workspace name v =>
    cases q with
    | workspace name' v' =>
      have keys : name ≠ name' := fun eq => ne (congrArg workspacePath eq)
      exact congrArg (fun workspace => { d with workspace })
        (Assoc.insert_comm keys d.workspace v v')
    | _ => rfl
  | asset path bytes =>
    cases q with
    | asset path' bytes' =>
      exact congrArg (fun assets => { d with assets })
        (Assoc.insert_comm ne d.assets bytes bytes')
    | _ => rfl

/-- Pieces of different paths may be read in any order. -/
theorem foldl_put_perm {ps qs : List Piece} (perm : ps.Perm qs)
    (distinct : (ps.map Piece.path).Nodup) (d : Draft) : ps.foldl put d = qs.foldl put d := by
  refine perm.foldl_eq' (fun p hp q hq z => ?_) d
  by_cases eq : p.path = q.path
  · rw [List.inj_on_of_nodup_map distinct hp hq eq]
  · exact put_comm eq z

theorem perm_cons_append {α : Type} {x : α} {ys zs : List α} (xs : List α)
    (h : ys.Perm (x :: zs)) : (xs ++ ys).Perm (x :: (xs ++ zs)) :=
  (h.append_left xs).trans List.perm_middle

theorem perm_map_insert {α : Type} {m : Assoc α} {key : String} (value : α) (f : String × α → Piece)
    (free : ∀ v, (key, v) ∉ m) :
    ((m.insert key value).map f).Perm (f (key, value) :: m.map f) := by
  refine (Assoc.insert_perm fun mem => ?_).map f
  obtain ⟨⟨_, v⟩, pair, rfl⟩ := List.mem_map.mp mem
  exact free v pair

theorem pieces_put {d : Draft} {p : Piece} (free : p.path ∉ d.pieces.map Piece.path) :
    (d.put p).pieces.Perm (p :: d.pieces) := by
  have absent {q} (same : q.path = p.path) : q ∉ d.pieces :=
    fun mem => free (same ▸ List.mem_map_of_mem mem)
  obtain ⟨document, metadata, user, pages, workspace, assets⟩ := d
  cases p with
  | document r =>
    cases document with
    | none => exact .refl _
    | some r' => exact absurd (by simp [pieces]) (@absent (.document r') rfl)
  | metadata r =>
    cases metadata with
    | none => exact perm_cons_append _ (.refl _)
    | some r' => exact absurd (by simp [pieces]) (@absent (.metadata r') rfl)
  | user data =>
    cases user with
    | none => exact perm_cons_append _ (perm_cons_append _ (.refl _))
    | some data' => exact absurd (by simp [pieces]) (@absent (.user data') rfl)
  | page id r =>
    have fresh (r') : (id, r') ∉ pages :=
      fun mem => @absent (.page id r') rfl (by simp [pieces, mem])
    have inserted := perm_map_insert r (fun p => Piece.page p.1 p.2) fresh
    exact perm_cons_append _ (perm_cons_append _ (perm_cons_append _ (inserted.append_right _)))
  | workspace name v =>
    have fresh (v') : (name, v') ∉ workspace :=
      fun mem => @absent (.workspace name v') rfl (by simp [pieces, mem])
    have inserted := perm_map_insert v (fun p => Piece.workspace p.1 p.2) fresh
    exact perm_cons_append _ (perm_cons_append _ (perm_cons_append _ (perm_cons_append _
      (inserted.append_right _))))
  | asset path bytes =>
    have fresh (bytes') : (path, bytes') ∉ assets :=
      fun mem => @absent (.asset path bytes') rfl (by simp [pieces, mem])
    have inserted := perm_map_insert bytes (fun p => Piece.asset p.1 p.2) fresh
    exact perm_cons_append _ (perm_cons_append _ (perm_cons_append _ (perm_cons_append _
      (perm_cons_append _ inserted))))

/-- Pieces of different paths are all kept. -/
theorem pieces_foldl_put {ps : List Piece} {d : Draft}
    (distinct : ((ps ++ d.pieces).map Piece.path).Nodup) :
    (ps.foldl put d).pieces.Perm (ps ++ d.pieces) := by
  induction ps generalizing d with
  | nil => exact .refl _
  | cons p ps ih =>
    have free : p.path ∉ d.pieces.map Piece.path := by
      rw [List.cons_append, List.map_cons, List.nodup_cons, List.map_append,
        List.mem_append, not_or] at distinct
      exact distinct.1.2
    have moved : (ps ++ (d.put p).pieces).Perm (p :: ps ++ d.pieces) :=
      perm_cons_append ps (pieces_put free)
    exact (ih ((moved.map Piece.path).nodup_iff.mpr distinct)).trans moved

end Draft

/-- Contents as they were read, before it was known that nothing is missing. -/
def Contents.draft (g : Contents) : Draft :=
  { g with document := some g.document, metadata := some g.metadata }

theorem Codec.assemble_eq_ok {c : Codec} {d : Draft} {g : Contents} :
    c.assemble d = .ok g ↔ d = g.draft ∧ g.references = c.options.references := by
  rw [assemble]
  constructor
  · intro h
    split at h
    · cases h
    · cases h
    · next document metadata =>
      cases h
      refine ⟨?_, rfl⟩
      rw [Contents.draft, ← document, ← metadata]
  · rintro ⟨rfl, references⟩
    rw [← references]
    rfl

end TypedArchive.Archive
