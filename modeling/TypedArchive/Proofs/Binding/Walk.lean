import TypedArchive.Binding.Walk

/-! A walk leaves the path as it found it: each step puts on the path what it takes off again. So a
walk gives what reading gives when each part of a value is handed a path of its own. -/

namespace TypedArchive

namespace FieldPath

theorem pop_push (path : FieldPath) (s : Segment) : (path.push s).pop = path :=
  List.dropLast_concat

end FieldPath

namespace Walk

variable {α β : Type}

/-- On each path a walk comes to what a reading comes to, and the path at the end is the path at the
start. -/
def Follows (walk : Walk α) (x : FieldPath → Reading α) : Prop :=
  ∀ path, walk path = (fun a => (a, path)) <$> x path

namespace Follows

theorem pure (a : α) : Follows (pure a) fun _ => pure a := fun _ => rfl

theorem check (x : FieldPath → Except DecodeError α) :
    Follows (Walk.check x) fun path => Decode.ended (x path) := by
  intro path
  exact (map_eq_pure_bind (m := Reading) (fun a => (a, path)) (Decode.ended (x path))).symm

theorem bind {walk : Walk α} {x : FieldPath → Reading α} {f : α → Walk β}
    {g : FieldPath → α → Reading β} (first : Follows walk x)
    (rest : ∀ a, Follows (f a) fun path => g path a) :
    Follows (walk >>= f) fun path => x path >>= g path := by
  intro path
  have start : (walk >>= f) path = walk path >>= fun p => f p.1 p.2 := rfl
  rw [start, first path, map_bind, bind_map_left]
  exact congrArg _ (funext fun a => rest a path)

theorem map {walk : Walk α} {x : FieldPath → Reading α} (follows : Follows walk x) (f : α → β) :
    Follows (do return f (← walk)) fun path => do return f (← x path) :=
  follows.bind fun a => .pure (f a)

/-- What is put on the path for a part of the value is taken off after it. -/
theorem inside {walk : Walk α} {x : FieldPath → Reading α} (s : Segment)
    (follows : Follows walk x) : Follows (Walk.inside s walk) fun path => x (path.push s) := by
  intro path
  have steps : Walk.inside s walk path = walk (path.push s) >>= fun p => Pure.pure (p.1, p.2.pop) :=
    rfl
  rw [steps, follows (path.push s), bind_map_left, ← bind_pure_comp]
  exact congrArg _ (funext fun a => by rw [FieldPath.pop_push])

theorem mapM {f : α → Walk β} {g : FieldPath → α → Reading β} {xs : List α}
    (each : ∀ x, Follows (f x) fun path => g path x) :
    Follows (xs.mapM f) fun path => xs.mapM (g path) := by
  induction xs with
  | nil => exact .pure []
  | cons x xs ih =>
    simp only [List.mapM_cons]
    exact (each x).bind fun y => ih.bind fun ys => .pure (y :: ys)

theorem foldlM {f : β → α → Walk β} {g : FieldPath → β → α → Reading β} {xs : List α} {start : β}
    (each : ∀ b x, Follows (f b x) fun path => g path b x) :
    Follows (xs.foldlM f start) fun path => xs.foldlM (g path) start := by
  induction xs generalizing start with
  | nil => exact .pure start
  | cons x xs ih =>
    simp only [List.foldlM_cons]
    exact (each start x).bind fun b => ih

end Follows

theorem selectVariant_follows (typeName : String) (discriminant : Option String)
    (variants : List Variant) (v : Json) :
    Follows (selectVariant typeName discriminant variants v) fun path =>
      Decode.ended (Decode.selectVariant typeName discriminant variants v path) := by
  unfold selectVariant
  split
  · next key members =>
    split
    · exact .check _
    · next absent =>
      have lacks : members.lookup key = none := Option.not_isSome_iff_eq_none.mp absent
      intro path
      simp only [Decode.selectVariant, lacks]
      rfl
  · exact .check _

section Round

variable {read : TypeRef → Json → Walk Data} {read' : TypeRef → Json → FieldPath → Reading Data}
  (part : ∀ t v, Follows (read t v) (read' t v))

include part

theorem array_follows (t : TypeRef) (v : Json) :
    Follows (array read t v) (Decode.roundArray read' t v) := by
  cases v with
  | array items =>
    have item (p : Json × Nat) : Follows (inside (.index p.2) (read t p.1)) fun path =>
      read' t p.1 (path.pushIndex p.2) := (part t p.1).inside (.index p.2)
    exact (Follows.mapM item).map _
  | _ => exact .check _

theorem map_follows (t : TypeRef) (v : Json) :
    Follows (map read t v) (Decode.roundMap read' t v) := by
  cases v with
  | object members =>
    have member (p : String × Json) :
        Follows (do return (p.1, ← inside (.key p.1) (read t p.2))) fun path => do
          return (p.1, ← read' t p.2 (path.pushKey p.1)) := ((part t p.2).inside (.key p.1)).map _
    exact (Follows.mapM member).map _
  | _ => exact .check _

theorem field_follows (members : Assoc Json) (ds : List (String × Data)) (f : Field) :
    Follows (field read members ds f) fun path => Decode.roundField read' members path ds f := by
  simp only [field, Decode.roundField]
  cases members.get? f.name with
  | some w => exact ((part f.type w).map _).inside (.key f.name)
  | none => exact (Follows.check _).inside (.key f.name)

theorem record_follows (typeName : String) (declared : List Field) (v : Json) :
    Follows (record read typeName declared v) (Decode.roundRecord read' typeName declared v) := by
  cases v with
  | object members => exact (Follows.foldlM fun ds f => field_follows part members ds f).map _
  | _ => exact .check _

theorem round_follows (c : Catalog) (t : TypeRef) (v : Json) :
    Follows (round read c t v) (Decode.round read' c t v) := by
  cases t with
  | primitive | literal => exact .check _
  | array t => exact array_follows part t v
  | map t => exact map_follows part t v
  | named name =>
    intro path
    simp only [round, Decode.round]
    cases c.get? name with
    | none => exact Follows.check (fun path => .error (.unknownType path name)) path
    | some e =>
      dsimp only
      cases e.type with
      | record declared => exact record_follows part e.name declared v path
      | enumeration values descriptions => exact Follows.check _ path
      | array t => exact array_follows part t v path
      | «alias» t => exact part t v path
      | «union» discriminant variants =>
        have selects := selectVariant_follows e.name discriminant variants v
        exact selects.bind (fun selected => (part selected.2.1.type v).map _) path

end Round

theorem run_follows (c : Catalog) (rounds : Nat) (t : TypeRef) (v : Json) :
    Follows (run c rounds t v) (Decode.run c rounds t v) := by
  induction rounds generalizing t v with
  | zero => exact fun _ => rfl
  | succ rounds ih => exact round_follows ih c t v

end Walk

/-- A walk ends where reading ends, with the same result and on the path it started with, or with
the same error. -/
theorem Catalog.walk_eq_run (c : Catalog) (name : String) (v : Json) :
    c.walk name v = (c.run name v).map fun r => r.map fun d => (d, []) := by
  rw [Catalog.walk, Walk.run_follows]
  change _ = Option.map _ (Decode.run _ _ _ _ _)
  generalize Decode.run _ _ _ _ _ = r
  match r with
  | none | some (.error _) | some (.ok _) => rfl

end TypedArchive
