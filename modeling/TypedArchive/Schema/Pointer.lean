import TypedArchive.Text.Replace

/-! JSON pointers: a path of keys and indices, and its text, in which a tilde and a slash inside a
segment are escaped. -/

namespace TypedArchive

/-- The segments from the root of a document down to a value. -/
abbrev Pointer := List String

namespace Pointer

/-- Escapes tildes first, so that those of escaped slashes are left alone. -/
def escape (segment : String) : String := Text.replace (Text.replace segment "~" "~0") "/" "~1"

/-- Undoes `escape`: slashes first, so that the tilde of an escaped tilde starts no escape. -/
def unescape (segment : String) : String :=
  Text.replace (Text.replace segment "~1" "/") "~0" "~"

def text (p : Pointer) : String := String.join (p.map fun segment => "/" ++ escape segment)

end Pointer

end TypedArchive
