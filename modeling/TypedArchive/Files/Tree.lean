import TypedArchive.Files.Path

/-! A tree of files held in memory. -/

namespace TypedArchive.Files

/-- Files by the steps of their paths, and the directories besides the root. -/
structure Tree where
  files : List (List String × List UInt8) := []
  directories : List (List String) := []
  deriving Repr

namespace Tree

def isDirectory (t : Tree) (place : List String) : Bool :=
  place.isEmpty || t.directories.contains place

def read? (t : Tree) (place : List String) : Option (List UInt8) := t.files.lookup place

/-- The steps on the way to a place, the place included. -/
def waysTo (place : List String) : List (List String) :=
  (List.range place.length).map fun n => place.take (n + 1)

/-- Makes the directories on the way to a place, unless a file is in the way. -/
def makeDirectories? (t : Tree) (place : List String) : Option Tree :=
  if (waysTo place).any fun p => (t.read? p).isSome then none
  else some { t with directories :=
    t.directories ++ (waysTo place).filter fun p => !t.directories.contains p }

/-- Writes a file into a directory that exists. -/
def write? (t : Tree) (place : List String) (content : List UInt8) : Option Tree :=
  if t.isDirectory place || !t.isDirectory place.dropLast then none
  else some { t with files := (place, content) :: t.files.filter fun f => f.1 != place }

/-- A tree that holds the files, with all directories that they need. -/
def ofFiles (files : List (String × List UInt8)) : Tree :=
  files.foldl (fun t (path, content) =>
    let place := resolve path
    ((t.makeDirectories? place.dropLast).bind fun t => t.write? place content).getD t) {}

/-- The files at or below a place, by their paths from there. -/
def below (t : Tree) (place : List String) : List (List String) :=
  t.files.filterMap fun (p, _) =>
    if place.isPrefixOf p then some (p.drop place.length) else none

end Tree

end TypedArchive.Files
