import TypedArchive.Catalog.Basic
import TypedArchive.Proofs.Assoc
import TypedArchive.Proofs.Chain

/-! Chains of aliases. The bound on steps cuts none short that ends, so a name has no entry at the
end of its chain only if the chain dangles or comes to a circle. -/

namespace TypedArchive.Catalog

/-- The entry of a name is an alias of another name. -/
def AliasTo (c : Catalog) (name next : String) : Prop :=
  ∃ e, c.get? name = some e ∧ e.type = .alias (.named next)

/-- The next name of a chain of aliases. -/
def aliasOf? (c : Catalog) (name : String) : Option String :=
  (c.get? name).bind fun e =>
    match e.type with
    | .alias (.named next) => some next
    | _ => none

variable {c : Catalog} {name : String}

theorem aliasOf?_eq_some_iff {next : String} : c.aliasOf? name = some next ↔ c.AliasTo name next := by
  rw [aliasOf?, AliasTo, Option.bind_eq_some_iff]
  refine exists_congr fun e => and_congr_right fun _ => ?_
  split
  · next next' type => rw [type, Option.some.injEq, TypeDef.alias.injEq, TypeRef.named.injEq]
  · next other =>
    refine ⟨fun h => ?_, fun type => absurd type (other next)⟩
    cases h

theorem step_aliasOf? (c : Catalog) : Chain.Step c.aliasOf? = c.AliasTo := by
  funext name next
  exact propext aliasOf?_eq_some_iff

theorem aliasOf?_covered (c : Catalog) (name next : String) (h : c.aliasOf? name = some next) :
    name ∈ c.entries.keys := by
  obtain ⟨e, entry, -⟩ := Option.bind_eq_some_iff.mp h
  exact Assoc.contains_iff_mem_keys.mp (Assoc.contains_iff_exists.mpr ⟨e, entry⟩)

/-- A chain of aliases stops where there is no entry, or one that is no alias of a name. -/
theorem aliasOf?_eq_none_iff : c.aliasOf? name = none ↔
    ∀ e, c.get? name = some e → ∀ next, e.type ≠ .alias (.named next) := by
  rw [Option.eq_none_iff_forall_ne_some]
  constructor
  · intro stops e entry next type
    exact stops next (aliasOf?_eq_some_iff.mpr ⟨e, entry, type⟩)
  · intro other next step
    obtain ⟨e, entry, type⟩ := aliasOf?_eq_some_iff.mp step
    exact other e entry next type

theorem followAliases_succ (c : Catalog) (steps : Nat) (name : String) :
    c.followAliases (steps + 1) name =
      match c.aliasOf? name with
      | some next => c.followAliases steps next
      | none => c.get? name := by
  rw [followAliases, aliasOf?]
  cases c.get? name with
  | none => rfl
  | some e =>
    dsimp only [Option.bind_some]
    generalize e.type = type
    cases type with
    | «alias» target => cases target <;> rfl
    | _ => rfl

/-- A chain of aliases that ends is no longer than there are entries. -/
theorem resolveAlias_of_followAliases {steps : Nat} {e : Entry}
    (found : c.followAliases steps name = some e) : c.resolveAlias name = some e := by
  have bounded := Chain.search_bounded (fun steps a e => c.followAliases steps a = some e)
    c.aliasOf?_covered (fun {m a e} stops found k => ?_) (fun {m a b e} next found => ?_) found
  · rwa [Assoc.keys, List.length_map] at bounded
  · cases m with
    | zero => cases found
    | succ m =>
      rw [followAliases_succ, stops] at found ⊢
      exact found
  · cases m with
    | zero => cases found
    | succ m =>
      rw [followAliases_succ, next] at found
      refine ⟨m, e, rfl, found, fun j found => ?_⟩
      rw [followAliases_succ, next]
      exact found

theorem exists_chain_of_followAliases {steps : Nat} {e : Entry}
    (found : c.followAliases steps name = some e) :
    ∃ last, Relation.ReflTransGen c.AliasTo name last ∧ c.aliasOf? last = none ∧
      c.get? last = some e := by
  induction steps generalizing name with
  | zero => cases found
  | succ steps ih =>
    rw [followAliases_succ] at found
    cases step : c.aliasOf? name with
    | none =>
      rw [step] at found
      exact ⟨name, .refl, step, found⟩
    | some next =>
      rw [step] at found
      obtain ⟨last, chain, ended⟩ := ih found
      exact ⟨last, .head (aliasOf?_eq_some_iff.mp step) chain, ended⟩

theorem exists_followAliases_of_chain {last : String}
    (chain : Relation.ReflTransGen c.AliasTo name last) (stops : c.aliasOf? last = none) :
    ∃ steps, c.followAliases steps name = c.get? last := by
  induction chain using Relation.ReflTransGen.head_induction_on with
  | refl =>
    refine ⟨1, ?_⟩
    rw [followAliases_succ, stops]
  | head step _ ih =>
    obtain ⟨steps, found⟩ := ih
    refine ⟨steps + 1, ?_⟩
    rw [followAliases_succ, aliasOf?_eq_some_iff.mpr step]
    exact found

/-- A name has the entry at which its chain of aliases stops. -/
theorem resolveAlias_eq_some_iff {e : Entry} : c.resolveAlias name = some e ↔
    ∃ last, Relation.ReflTransGen c.AliasTo name last ∧ c.get? last = some e ∧
      ∀ next, e.type ≠ .alias (.named next) := by
  constructor
  · intro resolved
    obtain ⟨last, chain, stops, entry⟩ := exists_chain_of_followAliases resolved
    exact ⟨last, chain, entry, aliasOf?_eq_none_iff.mp stops e entry⟩
  · rintro ⟨last, chain, entry, other⟩
    have stops : c.aliasOf? last = none := by
      refine aliasOf?_eq_none_iff.mpr fun e' entry' => ?_
      cases entry.symm.trans entry'
      exact other
    obtain ⟨steps, found⟩ := exists_followAliases_of_chain chain stops
    exact resolveAlias_of_followAliases (found.trans entry)

/-- It has none exactly if the chain dangles or comes to a circle. -/
theorem resolveAlias_eq_none_iff : c.resolveAlias name = none ↔
    ∃ last, Relation.ReflTransGen c.AliasTo name last ∧
      (c.get? last = none ∨ Relation.TransGen c.AliasTo last last) := by
  constructor
  · intro none
    by_contra other
    rw [not_exists] at other
    -- no circle is ahead, so the chain stops, and where it stops there is an entry
    have ends := Chain.endsWithin_of_no_circle_ahead c.aliasOf?_covered name <| by
      rw [step_aliasOf?]
      exact fun last chain circle => other last ⟨chain, .inr circle⟩
    obtain ⟨last, chain, stops⟩ := ends.exists_last
    rw [step_aliasOf?] at chain
    cases entry : c.get? last with
    | none => exact other last ⟨chain, .inl entry⟩
    | some e =>
      have found := resolveAlias_eq_some_iff.mpr
        ⟨last, chain, entry, aliasOf?_eq_none_iff.mp stops e entry⟩
      cases none.symm.trans found
  · rintro ⟨last, chain, way⟩
    rw [Option.eq_none_iff_forall_ne_some]
    intro e resolved
    obtain ⟨last', chain', stops', entry⟩ := exists_chain_of_followAliases resolved
    rw [← step_aliasOf?] at chain chain' way
    rcases way with dangles | circle
    · have stops : c.aliasOf? last = none := by rw [aliasOf?, dangles, Option.bind_none]
      cases Chain.last_unique stops stops' chain chain'
      cases dangles.symm.trans entry
    · exact Chain.no_circle_of_last stops' chain' chain circle

end TypedArchive.Catalog
