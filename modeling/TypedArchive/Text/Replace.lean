/-! Replacing a part of a text wherever it occurs. -/

namespace TypedArchive.Text

/-- Replaces the occurrences of a pattern from the left. The first characters are passed over: so many
still belong to an occurrence that has been replaced. -/
def replaceFrom (pattern replacement : List Char) : (passed : Nat) → List Char → List Char
  | _, [] => []
  | passed + 1, _ :: rest => replaceFrom pattern replacement passed rest
  | 0, c :: rest =>
    if pattern.isPrefixOf (c :: rest) then
      replacement ++ replaceFrom pattern replacement (pattern.length - 1) rest
    else c :: replaceFrom pattern replacement 0 rest

/-- Replaces each occurrence of a pattern that is not empty. What is put in is not searched again. -/
def replace (s pattern replacement : String) : String :=
  String.ofList (replaceFrom pattern.toList replacement.toList 0 s.toList)

end TypedArchive.Text
