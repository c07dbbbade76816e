import TypedArchive.Proofs.Binding.Fault
import TypedArchive.Proofs.Compile.Shape
import TypedArchive.Proofs.Json.Sorted

/-! Variants that no value selects. Where shapes tell the variants of a union apart, the first that
fits a value is selected. A variant is refused when one earlier shape subsumes its own, and that is
just when no value selects it: only for a variant of any shape can several earlier ones together
take all values. -/

namespace TypedArchive

namespace Shape

/-- A value of a shape that has no other shape, but for those that subsume it. -/
def sample : Shape → Json
  | .object required => .object (required.map fun key => (key, .null))
  | .array => .array []
  | .string => .string ""
  | .integer => .ofInt64 0
  | .number => .number (.double (.zero false))
  | .boolean => .bool false
  | .null | .any => .null

theorem accepts_sample (s : Shape) : s.accepts s.sample = true := by
  cases s with
  | object required =>
    simp only [sample, accepts, List.all_eq_true]
    intro key mem
    rw [Assoc.contains_iff_mem_keys]
    simpa [Assoc.keys, Function.comp_def] using mem
  | _ => rfl

theorem subsumes_of_accepts_sample {a b : Shape} (other : b ≠ .any)
    (h : a.accepts b.sample = true) : a.subsumes b = true := by
  cases b with
  | any => exact absurd rfl other
  | object required =>
    cases a with
    | any => rfl
    | object keys =>
      simp only [sample, accepts, List.all_eq_true] at h
      simp only [subsumes, List.all_eq_true, List.contains_iff_mem]
      intro key mem
      have has := Assoc.contains_iff_mem_keys.mp (h key mem)
      simpa [Assoc.keys, Function.comp_def] using has
    | _ => cases h
  | _ => cases a <;> first | rfl | cases h

theorem accepts_of_subsumes {a b : Shape} (h : a.subsumes b = true) {v : Json}
    (fits : b.accepts v = true) : a.accepts v = true := by
  cases a with
  | any => rfl
  | object keys =>
    cases b with
    | object required =>
      simp only [subsumes, List.all_eq_true, List.contains_iff_mem] at h
      cases v with
      | object members =>
        simp only [accepts, List.all_eq_true] at fits ⊢
        exact fun key mem => fits key (h key mem)
      | _ => cases fits
    | _ => simp [subsumes] at h
  | number =>
    cases b with
    | integer => cases v <;> first | rfl | cases fits
    | number => exact fits
    | _ => simp [subsumes] at h
  | _ =>
    have same : _ = b := eq_of_beq h
    exact same ▸ fits

theorem sorted_sample {s : Shape}
    (ascending : ∀ required, s = .object required → required.Pairwise (· < ·)) :
    s.sample.Sorted := by
  cases s with
  | object required =>
    rw [sample, Json.sorted_object]
    refine ⟨List.pairwise_map.mpr (ascending required rfl), fun p mem => ?_⟩
    obtain ⟨key, -, rfl⟩ := List.mem_map.mp mem
    simp [Json.Sorted]
  | _ => simp [sample, Json.Sorted, Json.ItemsSorted, Json.ofInt64]

/-- Together these take every value, and none of them can be left out. -/
def everything : List Shape := [.null, .boolean, .string, .array, .number, .object []]

theorem ne_any_of_mem_everything {s : Shape} (mem : s ∈ everything) : s ≠ .any := by
  rintro rfl
  simp [everything] at mem

theorem eq_of_subsumes {a b : Shape} (mem : b ∈ everything) (other : a ≠ .any)
    (h : a.subsumes b = true) : a = b := by
  simp only [everything, List.mem_cons, List.not_mem_nil, or_false] at mem
  cases a with
  | any => exact absurd rfl other
  | object keys =>
    rcases mem with rfl | rfl | rfl | rfl | rfl | rfl <;>
      simp_all [subsumes, List.eq_nil_iff_forall_not_mem]
  | number => rcases mem with rfl | rfl | rfl | rfl | rfl | rfl <;> simp_all [subsumes]
  | _ => exact eq_of_beq h

/-- Where no shape takes every value by itself, only all of these do so together. -/
theorem takes_all_iff {shapes : List Shape} (plain : .any ∉ shapes) :
    (∀ v : Json, v.Sorted → ∃ s ∈ shapes, s.accepts v = true) ↔ everything ⊆ shapes := by
  constructor
  · intro all kind mem
    have sorted : kind.sample.Sorted := by
      refine sorted_sample fun required eq => ?_
      subst eq
      have none : required = [] := by simpa [everything] using mem
      exact none ▸ .nil
    obtain ⟨s, listed, fits⟩ := all _ sorted
    have subsumes := subsumes_of_accepts_sample (ne_any_of_mem_everything mem) fits
    have other : s ≠ .any := fun eq => plain (eq ▸ listed)
    exact eq_of_subsumes mem other subsumes ▸ listed
  · intro sub v _
    have take {s} (mem : s ∈ everything) (fits : s.accepts v = true) :
        ∃ s ∈ shapes, s.accepts v = true := ⟨s, sub mem, fits⟩
    cases v with
    | null => exact take (s := .null) (by simp [everything]) rfl
    | bool b => exact take (s := .boolean) (by simp [everything]) rfl
    | number n => exact take (s := .number) (by simp [everything]) rfl
    | string s => exact take (s := .string) (by simp [everything]) rfl
    | array items => exact take (s := .array) (by simp [everything]) rfl
    | object members => exact take (s := .object []) (by simp [everything]) rfl

end Shape

/-- The shapes of a union's variants select the variant at an index for a value. -/
def Selected (variants : List Variant) (v : Json) (j : Nat) : Prop :=
  ∃ variant, ∀ name path, Decode.selectVariant name none variants v path = .ok (j, variant, none)

/-- Some value selects the variant at an index. -/
def Selectable (variants : List Variant) (j : Nat) : Prop :=
  ∃ v : Json, v.Sorted ∧ Selected variants v j

/-- The variant at an index is hidden if the shape of one before it subsumes its shape. -/
def Hidden (variants : List Variant) (j : Nat) : Prop :=
  ∃ b, variants[j]? = some b ∧ ∃ a ∈ variants.take j, a.shape.subsumes b.shape = true

/-- The variant at an index is hidden, and none before it is. -/
structure FirstHidden (variants : List Variant) (j : Nat) : Prop where
  hidden : Hidden variants j
  visible : ∀ i < j, ¬Hidden variants i

theorem Hidden.lt {variants : List Variant} {j : Nat} (hidden : Hidden variants j) :
    j < variants.length := by
  obtain ⟨b, at', -⟩ := hidden
  exact (List.getElem?_eq_some_iff.mp at').1

section Selected

variable {variants : List Variant} {v : Json} {j : Nat}

/-- The variant that is selected fits, and none before it does. -/
theorem selected_iff : Selected variants v j ↔ ∃ b, variants[j]? = some b ∧
    b.shape.accepts v = true ∧ ∀ a ∈ variants.take j, a.shape.accepts v = false := by
  have first : Selected variants v j ↔ ∃ b,
      (variants.zipIdx.find? fun p => p.1.shape.accepts v) = some (b, j) := by
    simp only [Selected, Decode.selectVariant_none]
    constructor
    · rintro ⟨b, select⟩
      have select := select "" []
      split at select
      · next found => exact ⟨b, by cases select; exact found⟩
      · cases select
    · rintro ⟨b, found⟩
      exact ⟨b, fun name path => by rw [found]⟩
  rw [first]
  refine exists_congr fun b => ?_
  rw [List.find?_eq_some_iff_getElem]
  constructor
  · rintro ⟨fits, i, lt, eq, before⟩
    simp only [List.getElem_zipIdx, Nat.zero_add, Prod.mk.injEq] at eq before
    obtain ⟨rfl, rfl⟩ := eq
    rw [List.length_zipIdx] at lt
    refine ⟨List.getElem?_eq_getElem lt, fits, fun a mem => ?_⟩
    obtain ⟨k, hk, rfl⟩ := List.mem_take_iff_getElem.mp mem
    simpa using before k (by omega)
  · rintro ⟨at', fits, before⟩
    obtain ⟨lt, rfl⟩ := List.getElem?_eq_some_iff.mp at'
    refine ⟨fits, j, by rwa [List.length_zipIdx], by simp, fun i earlier => ?_⟩
    have other := before variants[i] (List.mem_take_iff_getElem.mpr ⟨i, by omega, rfl⟩)
    simpa using other

theorem Hidden.not_selected (hidden : Hidden variants j) : ¬Selected variants v j := by
  obtain ⟨b, at', a, earlier, subsumes⟩ := hidden
  intro selected
  obtain ⟨b', at'', fits, before⟩ := selected_iff.mp selected
  cases at'.symm.trans at''
  have refused := before a earlier
  rw [Shape.accepts_of_subsumes subsumes fits] at refused
  cases refused

section Visible

variable {b : Variant} (at' : variants[j]? = some b) (visible : ¬Hidden variants j)

include at' visible

/-- A visible variant of a certain shape is selected by the sample of the shape. -/
theorem selectable_of_visible (other : b.shape ≠ .any)
    (ascending : ∀ required, b.shape = .object required → required.Pairwise (· < ·)) :
    Selectable variants j := by
  refine ⟨b.shape.sample, Shape.sorted_sample ascending, selected_iff.mpr
    ⟨b, at', b.shape.accepts_sample, fun a earlier => ?_⟩⟩
  by_contra fits
  rw [Bool.not_eq_false] at fits
  exact visible ⟨b, at', a, earlier, Shape.subsumes_of_accepts_sample other fits⟩

/-- A visible variant of any shape is selected unless those before it take every value. -/
theorem selectable_any_iff (any : b.shape = .any) :
    Selectable variants j ↔ ¬Shape.everything ⊆ (variants.take j).map Variant.shape := by
  have plain : .any ∉ (variants.take j).map Variant.shape := by
    intro mem
    obtain ⟨a, earlier, takes⟩ := List.mem_map.mp mem
    exact visible ⟨b, at', a, earlier, takes ▸ rfl⟩
  rw [← Shape.takes_all_iff plain]
  push Not
  refine exists_congr fun v => and_congr_right fun _ => ?_
  rw [selected_iff, List.forall_mem_map]
  constructor
  · rintro ⟨_, -, -, before⟩ a earlier
    simpa using before a earlier
  · intro refuse
    exact ⟨b, at', by rw [any]; rfl, fun a earlier => by simpa using refuse a earlier⟩

end Visible

end Selected

namespace Compile

/-- The variants of a union whose branches are told apart by shapes. -/
def shapedVariants (c : Catalog) (branches : List TypeRef) : List Variant :=
  branches.map fun type => { type, shape := shapeOf c type }

section Shaped

variable {c : Catalog} {branches : List TypeRef} {j : Nat}

theorem shapeOf_ascending {t : TypeRef} {required : List String}
    (h : shapeOf c t = .object required) : required.Pairwise (· < ·) := by
  have plain {t required} (h : plainShape t = .object required) : required.Pairwise (· < ·) := by
    cases t with
    | primitive p => cases p <;> cases h
    | literal l => cases l <;> cases h
    | map t =>
      cases h
      exact .nil
    | _ => cases h
  cases t with
  | named name =>
    simp only [shapeOf] at h
    split at h
    · cases h
      exact (Assoc.sorted_ofList _).keys_ascending
    · split at h
      · next p _ => cases p <;> cases h
      · cases h
    · cases h
    · exact plain h
    · cases h
    · cases h
  | _ =>
    simp only [shapeOf] at h
    exact plain h

/-- The test that the first hidden variant passes. -/
def isHidden (shapes : List Shape) (j : Nat) : Bool :=
  match shapes[j]? with
  | some later => (shapes.take j).any fun earlier => earlier.subsumes later
  | none => false

theorem isHidden_iff :
    isHidden (branches.map (shapeOf c)) j = true ↔ Hidden (shapedVariants c branches) j := by
  rw [isHidden, Hidden, shapedVariants, List.getElem?_map, List.getElem?_map]
  cases branches[j]? with
  | none => simp
  | some t => simp [← List.map_take]

theorem firstHidden?_eq_some (h : firstHidden? (branches.map (shapeOf c)) = some j) :
    FirstHidden (shapedVariants c branches) j := by
  obtain ⟨hidden, i, lt, eq, before⟩ := List.find?_eq_some_iff_getElem.mp h
  rw [List.getElem_range] at eq
  subst eq
  refine ⟨isHidden_iff.mp hidden, fun k earlier hidden => ?_⟩
  have visible := before k earlier
  rw [List.getElem_range, Bool.not_eq_true'] at visible
  cases visible.symm.trans (isHidden_iff.mpr hidden)

theorem not_hidden_of_none (h : firstHidden? (branches.map (shapeOf c)) = none)
    (lt : j < branches.length) : ¬Hidden (shapedVariants c branches) j := fun hidden =>
  List.find?_eq_none.mp h j (by simpa using lt) (isHidden_iff.mpr hidden)

end Shaped

section Resolve

variable {g : Graph} {c : Catalog} {unions : Branches} {u : PendingUnion}
  (untold : ∀ key variants, resolveUnion g c unions u ≠ .ok (.union (some key) variants))

include untold

/-- Without a discriminant only hidden variants are left to look for. -/
theorem resolveUnion_of_untold : resolveUnion g c unions u =
    match firstHidden? (u.branches.map (shapeOf c)) with
    | some j => .error (.ambiguousUnion (node g u.node).id j)
    | none => .ok (.union none (shapedVariants c u.branches)) := by
  rcases resolveUnion_cases g c unions u with
    ⟨branches, -, type, told, eq⟩ | ⟨j, hidden, eq⟩ | ⟨visible, eq⟩
  · obtain ⟨key, variants, rfl, -⟩ := discriminated?_some told
    exact absurd eq (untold key variants)
  · rw [eq, hidden]
  · rw [eq, visible]
    rfl

/-- Where no discriminant tells the branches of a union apart, a variant is refused as ambiguous if
no value selects it, while every variant before it can be selected, those of any shape apart. Of a
union that is accepted every variant can be selected, one of any shape unless those before it take
all values together. -/
theorem resolveUnion_exact :
    let variants := shapedVariants c u.branches
    (∃ j, resolveUnion g c unions u = .error (.ambiguousUnion (node g u.node).id j) ∧
      j < variants.length ∧ (∀ v, ¬Selected variants v j) ∧
      ∀ i < j, ∀ b, variants[i]? = some b → b.shape ≠ .any → Selectable variants i) ∨
    (resolveUnion g c unions u = .ok (.union none variants) ∧
      ∀ j b, variants[j]? = some b → (b.shape ≠ .any → Selectable variants j) ∧
        (b.shape = .any → (Selectable variants j ↔
          ¬Shape.everything ⊆ (variants.take j).map Variant.shape))) := by
  intro variants
  have ascending {j : Nat} {b : Variant} (at' : variants[j]? = some b) (required : List String)
      (eq : b.shape = .object required) : required.Pairwise (· < ·) := by
    obtain ⟨t, -, rfl⟩ := List.mem_map.mp (List.mem_of_getElem? at')
    exact shapeOf_ascending eq
  have length : variants.length = u.branches.length := List.length_map _
  rw [resolveUnion_of_untold untold]
  cases hidden : firstHidden? (u.branches.map (shapeOf c)) with
  | some j =>
    have first := firstHidden?_eq_some hidden
    refine .inl ⟨j, rfl, first.hidden.lt, fun v => first.hidden.not_selected,
      fun i earlier b at' other => ?_⟩
    exact selectable_of_visible at' (first.visible i earlier) other (ascending at')
  | none =>
    refine .inr ⟨rfl, fun j b at' => ?_⟩
    obtain ⟨lt, -⟩ := List.getElem?_eq_some_iff.mp at'
    have visible := not_hidden_of_none hidden (length ▸ lt)
    exact ⟨fun other => selectable_of_visible at' visible other (ascending at'),
      selectable_any_iff at' visible⟩

end Resolve

/-- A last variant of any shape after variants that take all values is accepted and selected by
none; a whole number after all numbers is refused. -/
theorem resolveUnion_exact_all :
    let all : List TypeRef := [.primitive .null, .primitive .boolean, .primitive .string,
      .array .any, .primitive .number, .map .any, .any]
    let numbers : List TypeRef := [.primitive .string, .primitive .number, .primitive .integer]
    let resolve (branches : List TypeRef) := resolveUnion {} ⟨[]⟩ [] ⟨"U", 0, branches⟩
    resolve all = .ok (.union none (shapedVariants ⟨[]⟩ all)) ∧
      Selectable (shapedVariants ⟨[]⟩ all) 5 ∧ ¬Selectable (shapedVariants ⟨[]⟩ all) 6 ∧
      resolve numbers = .error (.ambiguousUnion (node {} 0).id 2) ∧
      (∀ v, ¬Selected (shapedVariants ⟨[]⟩ numbers) v 2) ∧
      Selectable (shapedVariants ⟨[]⟩ numbers) 1 := by
  intro all numbers resolve
  have accepted : resolve all = .ok (.union none (shapedVariants ⟨[]⟩ all)) := by decide +kernel
  have refused : resolve numbers = .error (.ambiguousUnion (node {} 0).id 2) := by decide +kernel
  have exact_all := resolveUnion_exact (u := ⟨"U", 0, all⟩) fun key variants eq => by
    cases accepted.symm.trans eq
  have exact_numbers := resolveUnion_exact (u := ⟨"U", 0, numbers⟩) fun key variants eq => by
    cases refused.symm.trans eq
  obtain ⟨j, eq, -⟩ | ⟨-, each⟩ := exact_all
  · cases accepted.symm.trans eq
  obtain ⟨j, eq, lt, none, before⟩ | ⟨eq, -⟩ := exact_numbers
  swap; · cases refused.symm.trans eq
  cases refused.symm.trans eq
  refine ⟨accepted, (each 5 _ rfl).1 (by decide), fun selectable => ?_, refused, none,
    before 1 (by decide) _ rfl (by decide)⟩
  exact ((each 6 _ rfl).2 (by decide)).mp selectable (by decide)

end Compile

end TypedArchive
