import Mathlib.Data.Option.Basic
import Mathlib.Data.String.Basic
import TypedArchive.Json.Basic
import TypedArchive.Proofs.Schema.Identifier
import TypedArchive.Proofs.Text.Numeral

/-! Pointers into JSON as RFC 6901 evaluates them. The text of a pointer is split at its slashes,
the parts are decoded, and each leads to one member or item. The text that a pointer is given leads
along its segments. -/

namespace TypedArchive

namespace Pointer

/-- The characters that a part of a pointer stands for: `~0` is a tilde, `~1` a slash, and no tilde
stands alone. -/
def decodeToken : List Char → Option (List Char)
  | [] => some []
  | '~' :: '0' :: rest => (decodeToken rest).map ('~' :: ·)
  | '~' :: '1' :: rest => (decodeToken rest).map ('/' :: ·)
  | '~' :: _ => none
  | c :: rest => (decodeToken rest).map (c :: ·)

/-- The parts of a pointer, decoded. A text that is not empty begins with a slash. -/
def tokens? (text : String) : Option (List String) :=
  match text.toList.splitOn '/' with
  | [] :: parts => parts.mapM fun part => (decodeToken part).map String.ofList
  | _ => none

theorem decodeToken_escapeChar (c : Char) (rest : List Char) :
    decodeToken (escapeChar c ++ rest) = (decodeToken rest).map (c :: ·) := by
  unfold escapeChar
  split
  · next tilde =>
    subst tilde
    rfl
  · next other =>
    split
    · next slash =>
      subst slash
      rfl
    · rw [List.singleton_append, decodeToken.eq_def]
      split <;> simp_all

theorem decodeToken_escape (s : String) : decodeToken (escape s).toList = some s.toList := by
  rw [toList_escape]
  induction s.toList with
  | nil => rfl
  | cons c chars ih => rw [List.flatMap_cons, decodeToken_escapeChar, ih, Option.map_some]

theorem splitOn_text (p : Pointer) :
    p.text.toList.splitOn '/' = [] :: p.map fun segment => (escape segment).toList := by
  have joined : p.text.toList =
      ['/'].intercalate ([] :: p.map fun segment => (escape segment).toList) := by
    induction p with
    | nil => rfl
    | cons segment p ih =>
      rw [toList_text_cons, ih, List.map_cons]
      cases p <;> simp [List.intercalate]
  rw [joined]
  refine List.splitOn_intercalate '/' (fun part mem => ?_) (List.cons_ne_nil _ _)
  rcases List.mem_cons.mp mem with rfl | mem
  · exact List.not_mem_nil
  · obtain ⟨segment, -, rfl⟩ := List.mem_map.mp mem
    exact slash_not_mem_escape segment

/-- The parts of the text of a pointer are its segments. -/
theorem tokens?_text (p : Pointer) : tokens? p.text = some p := by
  rw [tokens?, splitOn_text]
  dsimp only
  induction p with
  | nil => rfl
  | cons segment p ih =>
    rw [List.map_cons, List.mapM_cons, ih, decodeToken_escape]
    simp

end Pointer

namespace Json

/-- The item whose index is written as the given token. -/
def item? (items : List Json) (token : String) : Option Json :=
  (items.zipIdx.find? fun p => toString p.2 == token).map Prod.fst

/-- The value that a token leads to: the member of this name, or the item of this index. -/
def follow? (v : Json) (token : String) : Option Json :=
  match v with
  | .object members => Assoc.get? members token
  | .array items => item? items token
  | _ => none

/-- The value that segments lead to, one after the other. -/
def descend? (v : Json) (p : Pointer) : Option Json := p.foldlM follow? v

/-- The value that the text of a pointer leads to. -/
def evaluate? (v : Json) (text : String) : Option Json := (Pointer.tokens? text).bind v.descend?

theorem evaluate?_text (v : Json) (p : Pointer) : v.evaluate? p.text = v.descend? p := by
  rw [evaluate?, Pointer.tokens?_text, Option.bind_some]

theorem descend?_append (v : Json) (p q : Pointer) :
    v.descend? (p ++ q) = (v.descend? p).bind fun w => w.descend? q :=
  List.foldlM_append

theorem item?_toString {items : List Json} {i : Nat} {v : Json} (found : items[i]? = some v) :
    item? items (toString i) = some v := by
  have listed : (v, i) ∈ items.zipIdx := List.mem_zipIdx_iff_getElem?.mpr found
  cases first : items.zipIdx.find? fun p => toString p.2 == toString i with
  | none =>
    rw [List.find?_eq_none] at first
    exact absurd (beq_self_eq_true _) (first _ listed)
  | some p =>
    have written : toString p.2 = toString i := by simpa using List.find?_some first
    have same : p.2 = i := Text.toString_injective written
    have here := List.mem_zipIdx_iff_getElem?.mp (List.mem_of_find?_eq_some first)
    rw [same, found] at here
    rw [item?, first, Option.map_some, here]

/-- A member of a member, below a keyword. -/
theorem descend?_member {root v : Json} {p : Pointer} {keyword key : String}
    {members : Assoc Json} {w : Json} (found : root.descend? p = some v)
    (below : v.follow? keyword = some (.object members)) (member : members.get? key = some w) :
    root.descend? (p ++ [keyword, key]) = some w := by
  have inner : (Json.object members).follow? key = some w := member
  rw [descend?_append, found]
  simp [descend?, below, inner]

theorem descend?_item {root v : Json} {p : Pointer} {keyword : String} {items : List Json}
    {i : Nat} {w : Json} (found : root.descend? p = some v)
    (below : v.follow? keyword = some (.array items)) (item : items[i]? = some w) :
    root.descend? (p ++ [keyword, toString i]) = some w := by
  have inner : (Json.array items).follow? (toString i) = some w := item?_toString item
  rw [descend?_append, found]
  simp only [descend?, List.foldlM_cons, List.foldlM_nil, Option.bind_some, Option.bind_eq_bind,
    below, inner, Option.pure_def]

theorem descend?_keyword {root v : Json} {p : Pointer} {keyword : String} {w : Json}
    (found : root.descend? p = some v) (below : v.follow? keyword = some w) :
    root.descend? (p ++ [keyword]) = some w := by
  rw [descend?_append, found]
  simp [descend?, below]

end Json

end TypedArchive
