import TypedArchive.Compile.Check

/-! The search for a circle of arrays and aliases as it goes: depth first, along one path that grows
and shrinks, and into no name twice. -/

namespace TypedArchive.Catalog

/-- Where a search stands: the names from its start on, and all names that it has been to. -/
structure Search where
  path : List String
  visited : List String := []

namespace Search

def enter (s : Search) (name : String) : Search :=
  { path := s.path ++ [name], visited := name :: s.visited }

def leave (s : Search) : Search := { s with path := s.path.dropLast }

/-- Goes on to one name after the other until one of them is the start or leads back to it. -/
def tryNames (start : String) (extend : Search → Bool × Search) :
    List String → Search → Bool × Search
  | [], s => (false, s)
  | next :: rest, s =>
    if next = start then (true, { s with path := s.path ++ [next] })
    else if next ∈ s.visited then tryNames start extend rest s
    else
      match extend (s.enter next) with
      | (true, s) => (true, s)
      | (false, s) => tryNames start extend rest s.leave

end Search

/-- Goes on from the last name of the path; whether that leads back to the start. -/
def extendPath (c : Catalog) (start : String) : (steps : Nat) → Search → Bool × Search
  | 0, s => (false, s)
  | steps + 1, s =>
    match s.path.getLast?.bind c.get? with
    | none => (false, s)
    | some e =>
      if isTransparent e.type then s.tryNames start (extendPath c start steps) e.type.namedRefs
      else (false, s)

/-- The circle through a name that the search finds. -/
def searchCycle? (c : Catalog) (steps : Nat) (name : String) : Option (List String) :=
  match c.extendPath name steps { path := [name] } with
  | (true, s) => some s.path
  | (false, _) => none

end TypedArchive.Catalog
