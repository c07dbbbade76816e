import TypedArchive.Proofs.Binding.RoundTrip

/-! An edit of one field of a record changes one member of what the record is written as. -/

namespace TypedArchive

namespace Assoc

variable {α : Type} {key : String} {m n : Assoc α}

/-- The lists look up alike, but for one key. -/
def AgreeBut (key : String) (m n : Assoc α) : Prop :=
  ∀ other, other ≠ key → m.get? other = n.get? other

theorem AgreeBut.refl (m : Assoc α) : AgreeBut key m m := fun _ _ => rfl

theorem AgreeBut.symm (agree : AgreeBut key m n) : AgreeBut key n m :=
  fun other ne => (agree other ne).symm

theorem AgreeBut.trans {o : Assoc α} (agree : AgreeBut key m n) (agree' : AgreeBut key n o) :
    AgreeBut key m o :=
  fun other ne => (agree other ne).trans (agree' other ne)

theorem agreeBut_insert (m : Assoc α) (key : String) (value : α) :
    AgreeBut key (m.insert key value) m :=
  fun _ ne => get?_insert_of_ne m value ne

theorem agreeBut_erase (m : Assoc α) (key : String) : AgreeBut key (m.erase key) m := by
  intro other ne
  rw [get?_erase, if_neg ne]

theorem AgreeBut.insert (agree : AgreeBut key m n) (name : String) (value : α) :
    AgreeBut key (m.insert name value) (n.insert name value) := by
  intro other ne
  rw [get?_insert, get?_insert, agree other ne]

theorem AgreeBut.of_erase (same : m.erase key = n.erase key) : AgreeBut key m n := by
  have agree := agreeBut_erase m key
  rw [same] at agree
  exact agree.symm.trans (agreeBut_erase n key)

/-- Pairs of the key may be left out when pairs are inserted. -/
theorem AgreeBut.insertAll_erase (agree : AgreeBut key m n) (pairs : List (String × α)) :
    AgreeBut key (m.insertAll pairs) (n.insertAll (erase pairs key)) := by
  induction pairs generalizing m n with
  | nil => exact agree
  | cons p pairs ih =>
    obtain ⟨name, value⟩ := p
    by_cases eq : name = key
    · subst eq
      rw [insertAll_cons, erase, List.filter_cons_of_neg (by simp)]
      exact ih ((agreeBut_insert m name value).trans agree)
    · rw [insertAll_cons, erase, List.filter_cons_of_pos (by simpa using eq), insertAll_cons]
      exact ih (agree.insert name value)

theorem agreeBut_insertAll (m : Assoc α) {pairs pairs' : List (String × α)}
    (same : erase pairs key = erase pairs' key) :
    AgreeBut key (m.insertAll pairs) (m.insertAll pairs') := by
  have agree : AgreeBut key (m.insertAll pairs) (m.insertAll (erase pairs key)) :=
    (AgreeBut.refl m).insertAll_erase pairs
  rw [same] at agree
  exact agree.trans ((AgreeBut.refl m).insertAll_erase pairs').symm

theorem erase_erase (m : Assoc α) (key : String) : (m.erase key).erase key = m.erase key := by
  unfold erase
  rw [List.filter_filter]
  simp

end Assoc

namespace Record

/-- An edit of one field of a record. -/
def EditOf (field : String) (r r' : Record) : Prop :=
  (∃ d, r' = r.insert field d) ∨ r' = r.erase field

theorem EditOf.keeps {field : String} {r r' : Record} (edit : EditOf field r r') :
    r'.typeName = r.typeName ∧ r'.extra = r.extra ∧
      r.fields.erase field = r'.fields.erase field := by
  rcases edit with ⟨d, rfl⟩ | rfl
  · exact ⟨rfl, rfl, (Assoc.erase_insert r.fields field d).symm⟩
  · exact ⟨rfl, rfl, (Assoc.erase_erase r.fields field).symm⟩

end Record

open Assoc (AgreeBut)

variable {c : Catalog} {key : String}

namespace Encode

theorem fields_cons {entries : Assoc Encoder} {f : Field} {declared : List Field} {path : FieldPath}
    {base written : Assoc Json} (h : fields entries (f :: declared) path base = .ok written) :
    (∃ entry v, entries.get? f.name = some entry ∧ entry f.type (path.pushKey f.name) = .ok v ∧
        fields entries declared path (base.insert f.name v) = .ok written) ∨
      (entries.get? f.name = none ∧ fields entries declared path base = .ok written) := by
  rw [fields, List.foldlM_cons] at h
  obtain ⟨next, first, rest⟩ := Outcome.bind_eq_ok.mp h
  split at first
  · next entry found =>
    obtain ⟨v, ok, first⟩ := Outcome.bind_eq_ok.mp first
    cases first
    exact Or.inl ⟨entry, v, found, ok, rest⟩
  · next missing =>
    split at first
    · cases first
      exact Or.inr ⟨missing, rest⟩
    · cases first

/-- Members that are written by the same encoders, but for one key, over members that agree but for
this key. -/
theorem fields_agreeBut {entries entries' : Assoc Encoder} (same : AgreeBut key entries entries')
    {declared : List Field} {path : FieldPath} {base base' written written' : Assoc Json}
    (agree : AgreeBut key base base') (h : fields entries declared path base = .ok written)
    (h' : fields entries' declared path base' = .ok written') : AgreeBut key written written' := by
  induction declared generalizing base base' with
  | nil =>
    cases h
    cases h'
    exact agree
  | cons f declared ih =>
    by_cases eq : f.name = key
    · -- Whatever is written for the key itself, nothing else is touched.
      have first {entries : Assoc Encoder} {base written : Assoc Json}
          (h : fields entries (f :: declared) path base = .ok written) :
          ∃ next, AgreeBut key next base ∧ fields entries declared path next = .ok written := by
        rcases fields_cons h with ⟨_, v, -, -, rest⟩ | ⟨-, rest⟩
        · exact ⟨_, eq ▸ Assoc.agreeBut_insert base f.name v, rest⟩
        · exact ⟨_, .refl base, rest⟩
      obtain ⟨next, beside, rest⟩ := first h
      obtain ⟨next', beside', rest'⟩ := first h'
      exact ih (beside.trans (agree.trans beside'.symm)) rest rest'
    · have found := same f.name eq
      rcases fields_cons h with ⟨entry, v, some, ok, rest⟩ | ⟨none, rest⟩
      · rcases fields_cons h' with ⟨entry', v', some', ok', rest'⟩ | ⟨none', -⟩
        · rw [some, some', Option.some.injEq] at found
          subst found
          rw [ok] at ok'
          cases ok'
          exact ih (agree.insert f.name v) rest rest'
        · rw [some, none'] at found
          cases found
      · rcases fields_cons h' with ⟨entry', v', some', -, -⟩ | ⟨-, rest'⟩
        · rw [none, some'] at found
          cases found
        · exact ih agree rest rest'

theorem primitive_record {p : Primitive} {name : String} {entries : List (String × Data)}
    {extra : List (String × Json)} {path : FieldPath} {v : Json}
    (h : primitive p (.record name entries extra) path = .ok v) :
    v = (Data.record name entries extra).toJson := by
  cases p with
  | any =>
    cases h
    rfl
  | _ => cases h

theorem literal_record {l : Literal} {name : String} {entries : List (String × Data)}
    {extra : List (String × Json)} {path : FieldPath} {v : Json} :
    literal l (.record name entries extra) path ≠ .ok v := by
  intro h
  cases l <;> cases h

/-- Values are written as objects that agree but for one key. -/
def ObjectsAgreeBut (key : String) (v v' : Json) : Prop :=
  ∃ members members', v = .object members ∧ v' = .object members' ∧ AgreeBut key members members'

variable {name : String} {entries entries' : Assoc Data} {extra : Assoc Json}

theorem toJson_agreeBut (same : entries.erase key = entries'.erase key) :
    ObjectsAgreeBut key (Data.record name entries extra).toJson
      (Data.record name entries' extra).toJson := by
  have json (es : Assoc Data) : (Data.record name es extra).toJson =
      .object (extra.insertAll (es.mapValues Data.toJson)) := by
    rw [Data.toJson, Data.entriesToJson_eq, Data.overlay_eq_insertAll]
    rfl
  have erased (es : Assoc Data) : (es.mapValues Data.toJson).erase key =
      (es.erase key).mapValues Data.toJson := by
    rw [Assoc.erase, Assoc.mapValues, List.filter_map]
    rfl
  refine ⟨_, _, json entries, json entries', Assoc.agreeBut_insertAll extra ?_⟩
  rw [erased, erased, same]

theorem record_agreeBut (same : entries.erase key = entries'.erase key) {typeName : String}
    {declared : List Field} {path : FieldPath} {v v' : Json}
    (h : record typeName declared (.record name entries extra) (entryEncoders c entries) path =
      .ok v)
    (h' : record typeName declared (.record name entries' extra) (entryEncoders c entries') path =
      .ok v') : ObjectsAgreeBut key v v' := by
  have written {es : Assoc Data} {v : Json}
      (h : record typeName declared (.record name es extra) (entryEncoders c es) path = .ok v) :
      ∃ members, fields (entryEncoders c es) declared path extra = .ok members ∧
        .object members = v := by
    unfold record at h
    dsimp only at h
    split at h
    · cases h
    · split at h
      · cases h
      · exact Outcome.map_eq_ok.mp h
  obtain ⟨members, ok, rfl⟩ := written h
  obtain ⟨members', ok', rfl⟩ := written h'
  have encoders : AgreeBut key (entryEncoders c entries) (entryEncoders c entries') := by
    intro other ne
    rw [get?_entryEncoders, get?_entryEncoders, AgreeBut.of_erase same other ne]
  exact ⟨members, members', rfl, rfl, fields_agreeBut encoders (.refl extra) ok ok'⟩

/-- A record and the same record with one field edited are written as objects that agree but for
the name of this field. -/
theorem typeRef_agreeBut (same : entries.erase key = entries'.erase key) {steps : Nat}
    {t : TypeRef} {path : FieldPath} {v v' : Json}
    (h : typeRef c (.record name entries extra) (parts c (.record name entries extra)) steps t
      path = .ok v)
    (h' : typeRef c (.record name entries' extra) (parts c (.record name entries' extra)) steps t
      path = .ok v') : ObjectsAgreeBut key v v' := by
  induction steps generalizing t with
  | zero =>
    cases t with
    | primitive p =>
      rw [primitive_record h, primitive_record h']
      exact toJson_agreeBut same
    | literal l => exact absurd h literal_record
    | array t | map t | named t => cases h
  | succ steps ih =>
    cases t with
    | primitive p =>
      rw [primitive_record h, primitive_record h']
      exact toJson_agreeBut same
    | literal l => exact absurd h literal_record
    | array t | map t => cases h
    | named typeName =>
      cases entry : c.get? typeName with
      | none =>
        rw [typeRef] at h
        simp only [entry] at h
        cases h
      | some e =>
        cases type : e.type with
        | record declared =>
          rw [typeRef] at h h'
          simp only [entry, type] at h h'
          exact record_agreeBut same h h'
        | «alias» t =>
          rw [typeRef] at h h'
          simp only [entry, type] at h h'
          exact ih h h'
        | «union» discriminant variants =>
          have bare (fields : Assoc Data) (n g i p) :
              Data.record name fields extra ≠ .union n g i p := Data.noConfusion
          obtain ⟨variant, selected, ok⟩ := (typeRef_union entry type (bare entries)).mp h
          obtain ⟨variant', selected', ok'⟩ := (typeRef_union entry type (bare entries')).mp h'
          -- The variant is found by the name of the record alone.
          have selects : some variant = some variant' := selected.symm.trans selected'
          cases selects
          exact ih ok ok'
        | enumeration | array =>
          rw [typeRef] at h
          simp only [entry, type] at h
          cases h

end Encode

theorem Catalog.encode_agreeBut {name typeName : String} {entries entries' : Assoc Data}
    {extra : Assoc Json} (same : entries.erase key = entries'.erase key) {v v' : Json}
    (h : c.encode typeName (.record name entries extra) = .ok v)
    (h' : c.encode typeName (.record name entries' extra) = .ok v') :
    Encode.ObjectsAgreeBut key v v' := by
  rw [Catalog.encode, Encode.value_eq] at h h'
  exact Encode.typeRef_agreeBut same h h'

end TypedArchive
