import Mathlib.Data.List.Cycle
import Mathlib.Data.List.Flatten
import Mathlib.Logic.Relation
import TypedArchive.Catalog.Basic
import TypedArchive.Proofs.Assoc

/-! The search along mentions is exact. On every catalog it comes to an end, and it finds a target
just when a chain of at least one mention leads to it. -/

namespace TypedArchive

/-- A name stands somewhere in a type expression. -/
inductive TypeRef.Uses (name : String) : TypeRef → Prop
  | here : Uses name (.named name)
  | element {t : TypeRef} (inside : Uses name t) : Uses name (.array t)
  | value {t : TypeRef} (inside : Uses name t) : Uses name (.map t)

/-- A name stands in one of the type expressions of a type. -/
inductive TypeDef.Uses (name : String) : TypeDef → Prop
  | field {fields : List Field} {f : Field} (mem : f ∈ fields) (inside : f.type.Uses name) :
      Uses name (.record fields)
  | variant {discriminant : Option String} {variants : List Variant} {v : Variant}
      (mem : v ∈ variants) (inside : v.type.Uses name) : Uses name (.union discriminant variants)
  | element {t : TypeRef} (inside : t.Uses name) : Uses name (.array t)
  | target {t : TypeRef} (inside : t.Uses name) : Uses name (.alias t)

theorem TypeRef.mem_namedRefs {t : TypeRef} {name : String} :
    name ∈ t.namedRefs ↔ t.Uses name := by
  induction t with
  | named other =>
    rw [namedRefs, namedRef?, Option.mem_toList, Option.some.injEq]
    constructor
    · intro same
      subst same
      exact .here
    · intro uses
      cases uses
      rfl
  | primitive | literal => exact ⟨nofun, nofun⟩
  | array t ih =>
    constructor
    · exact fun mem => .element (ih.mp mem)
    · intro uses
      cases uses with
      | element inside => exact ih.mpr inside
  | map t ih =>
    constructor
    · exact fun mem => .value (ih.mp mem)
    · intro uses
      cases uses with
      | value inside => exact ih.mpr inside

theorem TypeDef.mem_namedRefs {type : TypeDef} {name : String} :
    name ∈ type.namedRefs ↔ type.Uses name := by
  cases type with
  | record fields =>
    simp only [namedRefs, List.mem_flatMap, TypeRef.mem_namedRefs]
    constructor
    · exact fun ⟨f, mem, inside⟩ => .field mem inside
    · intro uses
      cases uses with
      | field mem inside => exact ⟨_, mem, inside⟩
  | enumeration => exact ⟨nofun, nofun⟩
  | union discriminant variants =>
    simp only [namedRefs, List.mem_flatMap, TypeRef.mem_namedRefs]
    constructor
    · exact fun ⟨v, mem, inside⟩ => .variant mem inside
    · intro uses
      cases uses with
      | variant mem inside => exact ⟨_, mem, inside⟩
  | array t =>
    rw [namedRefs, TypeRef.mem_namedRefs]
    constructor
    · exact .element
    · intro uses
      cases uses with
      | element inside => exact inside
  | «alias» t =>
    rw [namedRefs, TypeRef.mem_namedRefs]
    constructor
    · exact .target
    · intro uses
      cases uses with
      | target inside => exact inside

/-- A relation leads from something back to it just when a circle passes through it. -/
theorem transGen_self_iff {α : Type} {r : α → α → Prop} {a : α} :
    Relation.TransGen r a a ↔ ∃ circle : Cycle α, circle.Chain r ∧ a ∈ circle := by
  constructor
  · intro back
    obtain ⟨b, chain, last⟩ := Relation.TransGen.tail'_iff.mp back
    obtain ⟨rest, leads, ends⟩ := List.exists_isChain_cons_of_relationReflTransGen chain
    refine ⟨(a :: rest : List α), ?_, List.mem_cons_self⟩
    rw [Cycle.chain_coe_cons, ← List.cons_append, List.isChain_append]
    refine ⟨leads, .singleton a, fun b' hb' a' ha' => ?_⟩
    rw [List.getLast?_eq_some_getLast (List.cons_ne_nil a rest), ends] at hb'
    simp_all
  · rintro ⟨circle, leads, mem⟩
    have chain : circle.Chain (Relation.TransGen r) := leads.imp fun _ _ => .single
    exact Cycle.chain_iff_pairwise.mp chain a mem a mem

namespace Catalog

/-- The entry of a name mentions another name. -/
def Mentions (c : Catalog) (name next : String) : Prop :=
  ∃ e, c.get? name = some e ∧ next ∈ e.type.namedRefs

/-- Another name stands in the type that a name has in the catalog. -/
def Uses (c : Catalog) (name next : String) : Prop :=
  ∃ e, c.get? name = some e ∧ e.type.Uses next

theorem mentions_eq_uses (c : Catalog) : c.Mentions = c.Uses := by
  funext name next
  simp only [Mentions, Uses, TypeDef.mem_namedRefs]

variable {c : Catalog} {name target : String} {stack seen : List String}

/-- The number of mentions in the entries whose names were not seen. -/
def unseenMentions (c : Catalog) (seen : List String) : Nat :=
  ((c.entries.filter fun p => p.1 ∉ seen).flatMap fun p => p.2.type.namedRefs).length

theorem unseenMentions_nil (c : Catalog) : c.unseenMentions [] = c.mentions := by
  simp [unseenMentions, mentions]

theorem unseenMentions_cons_le (c : Catalog) (name : String) (seen : List String) :
    c.unseenMentions (name :: seen) ≤ c.unseenMentions seen := by
  refine List.Sublist.length_le (List.Sublist.flatMap ?_ _)
  exact List.monotone_filter_right _ fun p unseen => by simp_all

/-- An entry that is seen for the first time takes its mentions out of those that are left. -/
theorem unseenMentions_visit {e : Entry} (fresh : name ∉ seen) (entry : c.get? name = some e) :
    c.unseenMentions (name :: seen) + e.type.namedRefs.length ≤ c.unseenMentions seen := by
  obtain ⟨before, after, split⟩ := List.append_of_mem (Assoc.mem_of_get? entry)
  have shrinks (entries : Assoc Entry) :
      ((entries.filter fun p => p.1 ∉ name :: seen).flatMap fun p => p.2.type.namedRefs).length ≤
        ((entries.filter fun p => p.1 ∉ seen).flatMap fun p => p.2.type.namedRefs).length :=
    unseenMentions_cons_le ⟨entries⟩ name seen
  have first := shrinks before
  have last := shrinks after
  simp only [unseenMentions, split, List.filter_append, List.flatMap_append, List.length_append,
    List.filter_cons, fresh] at first last ⊢
  simp only [List.mem_cons_self, not_true_eq_false, decide_false, decide_true,
    not_false_eq_true, Bool.false_eq_true, if_false, if_true, List.flatMap_cons,
    List.length_append]
  omega

/-- What is found stands behind a name on the stack. -/
theorem exists_of_mentionsFrom {rounds : Nat}
    (h : c.mentionsFrom target rounds stack seen = some true) :
    ∃ name ∈ stack, Relation.TransGen c.Mentions name target := by
  fun_induction mentionsFrom c target rounds stack seen with
  | case1 | case2 => cases h
  | case3 rounds name stack seen visited ih =>
    obtain ⟨source, mem, chain⟩ := ih h
    exact ⟨source, List.mem_cons_of_mem _ mem, chain⟩
  | case4 rounds name stack seen fresh missing ih =>
    obtain ⟨source, mem, chain⟩ := ih h
    exact ⟨source, List.mem_cons_of_mem _ mem, chain⟩
  | case5 rounds name stack seen fresh e entry next found =>
    exact ⟨name, List.mem_cons_self, .single ⟨e, entry, found⟩⟩
  | case6 rounds name stack seen fresh e entry next absent ih =>
    obtain ⟨source, mem, chain⟩ := ih h
    rcases List.mem_append.mp mem with mention | mem
    · have mention := List.mem_reverse.mp mention
      exact ⟨name, List.mem_cons_self, .head ⟨e, entry, mention⟩ chain⟩
    · exact ⟨source, List.mem_cons_of_mem _ mem, chain⟩

/-- What a seen name mentions is not the target, and is seen or waits on the stack. -/
def Searched (c : Catalog) (target : String) (stack seen : List String) : Prop :=
  ∀ name ∈ seen, ∀ next, c.Mentions name next → next ≠ target ∧ (next ∈ seen ∨ next ∈ stack)

/-- Nothing that is seen leads to the target once the stack is empty. -/
theorem Searched.not_transGen (searched : c.Searched target [] seen) (mem : name ∈ seen) :
    ¬Relation.TransGen c.Mentions name target := by
  intro chain
  induction chain using Relation.TransGen.head_induction_on with
  | single last => exact (searched _ mem _ last).1 rfl
  | head step _ ih =>
    rcases (searched _ mem _ step).2 with seen | waiting
    · exact ih seen
    · cases waiting

theorem Searched.skip (searched : c.Searched target (name :: stack) seen) (visited : name ∈ seen) :
    c.Searched target stack seen := by
  intro source mem next mention
  obtain ⟨other, known | waiting⟩ := searched source mem next mention
  · exact ⟨other, .inl known⟩
  · rcases List.mem_cons.mp waiting with rfl | waiting
    · exact ⟨other, .inl visited⟩
    · exact ⟨other, .inr waiting⟩

/-- A name is seen, and what it mentions is put on the stack. -/
theorem Searched.visit (searched : c.Searched target (name :: stack) seen) {next : List String}
    (mentions : ∀ other, c.Mentions name other → other ∈ next) (absent : target ∉ next) :
    c.Searched target (next.reverse ++ stack) (name :: seen) := by
  intro source mem other mention
  rcases List.mem_cons.mp mem with rfl | mem
  · have listed := mentions other mention
    have waiting := List.mem_append_left stack (List.mem_reverse.mpr listed)
    exact ⟨fun eq => absent (eq ▸ listed), .inr waiting⟩
  · obtain ⟨differs, known | waiting⟩ := searched source mem other mention
    · exact ⟨differs, .inl (List.mem_cons_of_mem _ known)⟩
    · rcases List.mem_cons.mp waiting with rfl | waiting
      · exact ⟨differs, .inl List.mem_cons_self⟩
      · exact ⟨differs, .inr (List.mem_append_right _ waiting)⟩

/-- What is seen or waits still does so after a visit. -/
theorem seen_or_waiting {source : String} (mem : source ∈ seen ∨ source ∈ name :: stack)
    (next : List String) : source ∈ name :: seen ∨ source ∈ next ++ stack := by
  rcases mem with mem | mem
  · exact .inl (List.mem_cons_of_mem _ mem)
  · rcases List.mem_cons.mp mem with rfl | mem
    · exact .inl List.mem_cons_self
    · exact .inr (List.mem_append_right _ mem)

/-- A search that ends in vain has passed over nothing that leads to the target. -/
theorem not_transGen_of_mentionsFrom {rounds : Nat} (searched : c.Searched target stack seen)
    (h : c.mentionsFrom target rounds stack seen = some false) {source : String}
    (mem : source ∈ seen ∨ source ∈ stack) : ¬Relation.TransGen c.Mentions source target := by
  fun_induction mentionsFrom c target rounds stack seen with
  | case1 | case5 => cases h
  | case2 =>
    rcases mem with mem | mem
    · exact searched.not_transGen mem
    · cases mem
  | case3 rounds name stack seen visited ih =>
    apply ih (searched.skip visited) h
    rcases mem with mem | mem
    · exact .inl mem
    · rcases List.mem_cons.mp mem with rfl | mem
      · exact .inl visited
      · exact .inr mem
  | case4 rounds name stack seen fresh missing ih =>
    have silent (other) : ¬c.Mentions name other := by
      rintro ⟨e, entry, -⟩
      rw [missing] at entry
      cases entry
    have searched : c.Searched target ([].reverse ++ stack) (name :: seen) :=
      searched.visit (fun other mention => absurd mention (silent other)) List.not_mem_nil
    exact ih searched h (seen_or_waiting mem [])
  | case6 rounds name stack seen fresh e entry next absent ih =>
    have mentions (other) (mention : c.Mentions name other) : other ∈ next := by
      obtain ⟨e', entry', listed⟩ := mention
      cases entry.symm.trans entry'
      exact listed
    exact ih (searched.visit mentions absent) h (seen_or_waiting mem _)

/-- Each round takes a name from the stack, and puts on it only mentions of an entry that is seen
for the first time. So more rounds than names on the stack and mentions left are not used up. -/
theorem mentionsFrom_ends {rounds : Nat} (enough : stack.length + c.unseenMentions seen < rounds) :
    ∃ found, c.mentionsFrom target rounds stack seen = some found := by
  fun_induction mentionsFrom c target rounds stack seen with
  | case1 => omega
  | case2 => exact ⟨false, rfl⟩
  | case3 rounds name stack seen visited ih =>
    rw [List.length_cons] at enough
    apply ih
    omega
  | case4 rounds name stack seen fresh missing ih =>
    have fewer := c.unseenMentions_cons_le name seen
    rw [List.length_cons] at enough
    apply ih
    omega
  | case5 => exact ⟨true, rfl⟩
  | case6 rounds name stack seen fresh e entry next absent ih =>
    have fewer : c.unseenMentions (name :: seen) + next.length ≤ c.unseenMentions seen :=
      unseenMentions_visit fresh entry
    rw [List.length_cons] at enough
    apply ih
    rw [List.length_append, List.length_reverse]
    omega

section Reaches

variable {source : String}

/-- An answer is right, whatever the rounds that it took. -/
theorem eq_true_of_mentionsFrom {rounds : Nat} {found : Bool}
    (h : c.mentionsFrom target rounds [source] [] = some found) :
    found = true ↔ Relation.TransGen c.Mentions source target := by
  cases found with
  | true =>
    obtain ⟨name, mem, chain⟩ := exists_of_mentionsFrom h
    rw [List.mem_singleton.mp mem] at chain
    exact ⟨fun _ => chain, fun _ => rfl⟩
  | false =>
    have none := not_transGen_of_mentionsFrom (List.forall_mem_nil _) h (.inr List.mem_cons_self)
    exact ⟨nofun, fun chain => absurd chain none⟩

theorem mentionsFrom_eq_reaches (c : Catalog) (source target : String) (more : Nat) :
    c.mentionsFrom target (c.mentions + 2 + more) [source] [] = some (c.reaches source target) := by
  have ends (more) : ∃ found,
      c.mentionsFrom target (c.mentions + 2 + more) [source] [] = some found := by
    apply mentionsFrom_ends
    rw [unseenMentions_nil, List.length_singleton]
    omega
  obtain ⟨found, h⟩ := ends more
  obtain ⟨found', h'⟩ := ends 0
  have same : found = true ↔ found' = true :=
    (eq_true_of_mentionsFrom h).trans (eq_true_of_mentionsFrom h').symm
  rw [h, reaches, ← Nat.add_zero (c.mentions + 2), h', Option.getD_some, Bool.eq_iff_iff.mpr same]

/-- The search tells whether a chain of mentions leads from one name to another. -/
theorem reaches_eq_true :
    c.reaches source target = true ↔ Relation.TransGen c.Mentions source target :=
  eq_true_of_mentionsFrom (mentionsFrom_eq_reaches c source target 0)

end Reaches

/-- The search comes to an end by itself on every catalog: a larger number of rounds changes
nothing. It tells whether a chain of at least one use leads from one name to another through the
entries of the catalog, and so whether a name is on a circle. -/
theorem reaches_exact (c : Catalog) (source target : String) :
    (∀ more, c.mentionsFrom target (c.mentions + 2 + more) [source] [] =
      some (c.reaches source target)) ∧
    (c.reaches source target = true ↔ Relation.TransGen c.Uses source target) ∧
    (c.reaches source source = true ↔
      ∃ circle : Cycle String, circle.Chain c.Uses ∧ source ∈ circle) := by
  refine ⟨mentionsFrom_eq_reaches c source target, ?_, ?_⟩
  · rw [reaches_eq_true, mentions_eq_uses]
  · rw [reaches_eq_true, mentions_eq_uses, transGen_self_iff]

/-- A target needs no entry, and a name does not reach itself unless something leads back. -/
example :
    let c : Catalog := ⟨[("A", ⟨"A", "", none, .record [⟨"b", .map (.named "B"), true, none⟩]⟩),
      ("B", ⟨"B", "", none, .array (.named "C")⟩), ("D", ⟨"D", "", none, .alias (.named "D")⟩)]⟩
    c.reaches "A" "C" = true ∧ c.reaches "A" "A" = false ∧ c.reaches "D" "D" = true := by
  decide

end Catalog

end TypedArchive
