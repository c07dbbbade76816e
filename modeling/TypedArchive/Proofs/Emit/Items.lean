import TypedArchive.Emit.Items
import TypedArchive.Proofs.Outcome

/-! Which items an entry is given: those of a record, of an enum of texts or of other literals, of a
union, or a name for another type. -/

namespace TypedArchive

open Emit

/-- The items of an entry, by the kind of its type. -/
inductive Catalog.Emits (c : Catalog) (runtime : CodePath) (e : Entry) : List Item → Prop
  | record {fields : List Field} (type : e.type = .record fields) :
      Emits c runtime e (recordItems runtime e.name (documentation e.description) fields
        (fields.map (c.fieldRead e.name)))
  | texts {values : List Literal} {descriptions texts : List String}
      (type : e.type = .enumeration values descriptions) (all : enumTexts? values = some texts) :
      Emits c runtime e (textEnumItems runtime e.name (documentation e.description)
        (((enumNames values descriptions).map identifier).zip texts))
  | literals {values : List Literal} {descriptions : List String}
      (type : e.type = .enumeration values descriptions) (mixed : enumTexts? values = none) :
      Emits c runtime e (literalEnumItems runtime e.name (documentation e.description)
        (((enumNames values descriptions).map identifier).zip values))
  | union {discriminant : Option String} {variants : List Variant}
      (type : e.type = .union discriminant variants) (body : List Statement) :
      Emits c runtime e (unionItems runtime e.name (documentation e.description)
        (((unionNames variants).map identifier).zip
          (variants.map fun v => EmittedType.ofRef v.type)) body)
  | array {t : TypeRef} (type : e.type = .array t) :
      Emits c runtime e [.alias (documentation e.description) (identifier e.name)
        (EmittedType.list (.ofRef t)).code]
  | «alias» {t : TypeRef} (type : e.type = .alias t) :
      Emits c runtime e [.alias (documentation e.description) (identifier e.name)
        (EmittedType.ofRef t).code]

theorem Catalog.emits_of_items {c : Catalog} {runtime : CodePath} {e : Entry} {items : List Item}
    (h : c.items runtime e = .ok items) : c.Emits runtime e items := by
  rw [Catalog.items] at h
  cases type : e.type with
  | record fields =>
    simp only [type] at h
    cases h
    exact .record type
  | enumeration values descriptions =>
    simp only [type] at h
    split at h
    · cases h
    · split at h <;> cases h
      · next texts all => exact .texts type all
      · next mixed => exact .literals type mixed
  | «union» discriminant variants =>
    simp only [type] at h
    split at h <;> cases h
    exact .union type _
  | array t =>
    simp only [type] at h
    cases h
    exact .array type
  | «alias» t =>
    simp only [type] at h
    cases h
    exact .alias type

end TypedArchive
