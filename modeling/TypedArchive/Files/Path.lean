/-! Paths of files as text, with `/` between their steps. -/

namespace TypedArchive.Files

/-- The steps of a path; empty steps and single points say nothing, save a point that is all or the
first of the path. -/
def steps (path : String) : List String :=
  match path.splitOn "/" with
  | [] => []
  | first :: rest =>
    (if first.isEmpty then [] else [first]) ++ rest.filter fun s => !s.isEmpty && s != "."

def isAbsolute (path : String) : Bool := path.startsWith "/"

/-- The path of the directory that holds a file, which is empty for a lone name. -/
def parent (path : String) : String :=
  let joined := "/".intercalate (steps path).dropLast
  if isAbsolute path then "/" ++ joined else joined

/-- A path seen from a directory. -/
def join (directory path : String) : String :=
  if isAbsolute path ∨ directory.isEmpty then path
  else if directory.endsWith "/" then directory ++ path
  else directory ++ "/" ++ path

/-- Follows steps from the root of a tree; a double point goes back. -/
def resolveSteps (reached : List String) : List String → List String
  | [] => reached.reverse
  | step :: rest =>
    if step = "." then resolveSteps reached rest
    else if step = ".." then resolveSteps reached.tail rest
    else resolveSteps (step :: reached) rest

/-- The place in a tree of files that a path names. -/
def resolve (path : String) : List String := resolveSteps [] (steps path)

/-- Whether a file name ends in `.json` after at least one character. -/
def isJsonName (name : String) : Bool := name.endsWith ".json" && name != ".json"

end TypedArchive.Files
