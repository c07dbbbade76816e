import TypedArchive.Text.Blank

/-! Block comments, which nest. -/

namespace TypedArchive.Text

/-- The rest of a text after a comment that nests `depth` deep; none if the comment does not end. -/
def afterComment : (depth : Nat) → List Char → Option (List Char)
  | _, [] => none
  | depth, '*' :: '/' :: rest =>
    match depth with
    | 0 | 1 => some rest
    | depth + 2 => afterComment (depth + 1) rest
  | depth, '/' :: '*' :: rest => afterComment (depth + 1) rest
  | depth, _ :: rest => afterComment depth rest

end TypedArchive.Text
