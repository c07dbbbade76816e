import Mathlib.Data.List.TakeWhile
import TypedArchive.Proofs.Schema.Escape
import TypedArchive.Schema.Node

/-! A node's identifier says where the node stands: the text of a pointer determines the pointer, and
with a document name free of marks the identifier determines both. -/

namespace TypedArchive

namespace Pointer

theorem toList_text_cons (s : String) (p : Pointer) :
    (text (s :: p)).toList = '/' :: ((escape s).toList ++ (text p).toList) := by
  simp [text, String.join_cons, String.toList_append]

/-- The characters before a mark that does not occur among them. -/
theorem takeWhile_ne_append {mark : Char} {s rest : List Char} (free : mark ∉ s)
    (next : ∀ c ∈ rest.head?, c = mark) : (s ++ rest).takeWhile (· != mark) = s := by
  rw [List.takeWhile_append_of_pos]
  · cases rest with
    | nil => simp
    | cons c rest => simp [next c rfl]
  · exact fun c mem => bne_iff_ne.mpr (ne_of_mem_of_not_mem mem free)

theorem head_text (p : Pointer) : ∀ c ∈ (text p).toList.head?, c = '/' := by
  cases p with
  | nil => simp [text]
  | cons s p => simp [toList_text_cons]

theorem text_injective : Function.Injective text := by
  intro p
  induction p with
  | nil =>
    intro q eq
    cases q with
    | nil => rfl
    | cons s q =>
      have eq := congrArg String.toList eq
      rw [toList_text_cons] at eq
      cases eq
  | cons s p ih =>
    intro q eq
    have eq := congrArg String.toList eq
    cases q with
    | nil =>
      rw [toList_text_cons] at eq
      cases eq
    | cons t q =>
      rw [toList_text_cons, toList_text_cons, List.cons.injEq] at eq
      have first := congrArg (List.takeWhile (· != '/')) eq.2
      rw [takeWhile_ne_append (slash_not_mem_escape s) (head_text p),
        takeWhile_ne_append (slash_not_mem_escape t) (head_text q)] at first
      obtain rfl := escape_injective (String.toList_inj.mp first)
      rw [ih (String.toList_inj.mp (List.append_cancel_left eq.2))]

end Pointer

namespace Node

theorem qualify_injective (document : String) : Function.Injective (qualify document) := by
  intro p q eq
  have eq := congrArg String.toList eq
  simp only [qualify, String.toList_append, List.append_assoc, List.append_cancel_left_eq] at eq
  exact Pointer.text_injective (String.toList_inj.mp eq)

theorem document_of_qualify {d d' : String} {p q : Pointer} (free : '#' ∉ d.toList)
    (free' : '#' ∉ d'.toList) (eq : qualify d p = qualify d' q) : d = d' := by
  have eq := congrArg String.toList eq
  simp only [qualify, String.toList_append, List.append_assoc] at eq
  have first := congrArg (List.takeWhile (· != '#')) eq
  rw [Pointer.takeWhile_ne_append free (by simp), Pointer.takeWhile_ne_append free' (by simp)] at first
  exact String.toList_inj.mp first

end Node

end TypedArchive
