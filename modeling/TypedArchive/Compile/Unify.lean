import TypedArchive.Catalog.Basic

/-! The meet of two field types. -/

namespace TypedArchive.TypeRef

/-- Whether the literal's values are among the primitive's. -/
def narrows (l : Literal) (p : Primitive) : Bool :=
  l.primitive == p || (p == .number && l.primitive == .integer)

/-- The narrower of two compatible types: equal types, anything beside unconstrained JSON, a literal
beside its primitive, integers beside numbers, and arrays and maps of compatible types. -/
def unify : TypeRef → TypeRef → Option TypeRef
  | .primitive .any, other => some other
  | other, .primitive .any => some other
  | .literal l, .primitive p => if narrows l p then some (.literal l) else none
  | .primitive p, .literal l => if narrows l p then some (.literal l) else none
  | .primitive .number, .primitive .integer => some (.primitive .integer)
  | .primitive .integer, .primitive .number => some (.primitive .integer)
  | .array a, .array b => (unify a b).map .array
  | .map a, .map b => (unify a b).map .map
  | a, b => if a = b then some a else none

end TypedArchive.TypeRef
