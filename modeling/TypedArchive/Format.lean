import TypedArchive.Binding.Reader
import TypedArchive.Catalog.Basic
import TypedArchive.Emit.Basic
import TypedArchive.Emit.Written

/-! The fixture bindings: the types that are emitted for the fixture schemas, which describe a layered
document format of pages of layers, shared assets and version data. The catalog of these schemas
determines how the types read JSON and what they write. -/

namespace TypedArchive.Format

/-- A field that has to be present. -/
def must (name : String) (type : TypeRef) (description : Option String := none) : Field :=
  { name, type, optional := false, description }

/-- A field that may be absent. -/
def may (name : String) (type : TypeRef) (description : Option String := none) : Field :=
  { name, type, optional := true, description }

/-- A variant told by its class. -/
def variant (tag name : String) (required : List String) : Variant :=
  { tag := some (.string tag), type := .named name, shape := .object required }

/-- What the schemas of the format compile to, in the order of the names. -/
def entries : List Entry := [
  { name := "AnyLayer"
    origin := "layers.schema.json#"
    description := some "Any layer that can sit on a page or inside a group"
    type := .union (some "_class") [
      variant "group" "Group"
        ["_class", "do_objectID", "frame", "layers", "name"],
      variant "bitmap" "Bitmap"
        ["_class", "do_objectID", "frame", "image", "name"],
      variant "text" "Text"
        ["_class", "do_objectID", "frame", "name"]] },
  { name := "Bitmap"
    origin := "layers.schema.json#/definitions/Bitmap"
    type := .record [
      must "_class" (.literal (.string "bitmap")),
      may "booleanOperation" (.named "BooleanOperation"),
      must "do_objectID" (.primitive .string),
      must "frame" (.named "Rect"),
      must "image" (.named "FileRef"),
      may "isVisible" (.primitive .boolean),
      must "name" (.primitive .string)] },
  { name := "BooleanOperation"
    origin := "file-format.schema.json#/definitions/BooleanOperation"
    type := .enumeration [.integer (-1), .integer 0, .integer 1, .integer 2, .integer 3]
      ["None", "Union", "Subtract", "Intersect", "Difference"] },
  { name := "BundleId"
    origin := "meta.schema.json#/definitions/BundleId"
    type := .enumeration [.string "com.bohemiancoding.sketch3",
      .string "com.bohemiancoding.sketch3.beta", .string "com.bohemiancoding.sketch3.private"]
      ["PublicRelease", "Beta", "Private"] },
  { name := "Contents"
    origin := "file-format.schema.json#"
    description := some "Decoded contents of a document archive"
    type := .record [
      must "document" (.named "Document"),
      must "meta" (.named "Meta"),
      may "user" (.map .any)
        (some "Per-user viewport state, keyed by page or document id")] },
  { name := "Document"
    origin := "document.schema.json#"
    description := some "The root document, listing pages and shared assets"
    type := .record [
      must "_class" (.literal (.string "document")),
      may "assets" (.named "DocumentAssets"),
      may "currentPageIndex" (.primitive .integer),
      must "do_objectID" (.primitive .string),
      must "pages" (.array (.named "FileRef"))] },
  { name := "DocumentAssets"
    origin := "document.schema.json#/properties/assets"
    type := .record [
      may "_class" (.literal (.string "assetCollection")),
      may "colors" (.array (.named "DocumentAssetsColorsItem")),
      may "images" (.array (.named "FileRef"))] },
  { name := "DocumentAssetsColorsItem"
    origin := "document.schema.json#/properties/assets/properties/colors/items"
    type := .record [
      may "alpha" (.primitive .number),
      may "blue" (.primitive .number),
      may "green" (.primitive .number),
      may "red" (.primitive .number)] },
  { name := "FileRef"
    origin := "file-format.schema.json#/definitions/FileRef"
    description := some "Reference to another entry of the archive"
    type := .record [
      must "_class" (.literal (.string "MSJSONFileReference")),
      { name := "_ref", type := .primitive .string, optional := false,
        description := some "Archive path of the referenced entry, without extension for pages" },
      must "_ref_class" (.primitive .string)] },
  { name := "Group"
    origin := "layers.schema.json#/definitions/Group"
    description := some "A container for other layers"
    type := .record [
      must "_class" (.literal (.string "group")),
      may "booleanOperation" (.named "BooleanOperation"),
      must "do_objectID" (.primitive .string),
      must "frame" (.named "Rect"),
      may "hasClickThrough" (.primitive .boolean),
      may "isVisible" (.primitive .boolean),
      must "layers" (.array (.named "AnyLayer")),
      must "name" (.primitive .string)] },
  { name := "LayerBase"
    origin := "layers.schema.json#/definitions/LayerBase"
    type := .record [
      may "booleanOperation" (.named "BooleanOperation"),
      must "do_objectID" (.primitive .string),
      must "frame" (.named "Rect"),
      may "isVisible" (.primitive .boolean),
      must "name" (.primitive .string)] },
  { name := "Meta"
    origin := "meta.schema.json#"
    description := some "Information about the application that saved the document"
    type := .record [
      must "app" (.named "BundleId"),
      must "appVersion" (.primitive .string),
      must "build" (.primitive .integer),
      may "commit" (.primitive .string),
      may "compatibilityVersion" (.primitive .integer),
      may "pagesAndArtboards" (.map (.named "MetaPagesAndArtboardsValue")),
      must "version" (.primitive .integer)] },
  { name := "MetaPagesAndArtboardsValue"
    origin := "meta.schema.json#/properties/pagesAndArtboards/additionalProperties"
    type := .record [
      may "name" (.primitive .string)] },
  { name := "Page"
    origin := "page.schema.json#"
    description := some "A page of the document, stored as its own archive entry"
    type := .record [
      must "_class" (.literal (.string "page")),
      must "do_objectID" (.primitive .string),
      may "frame" (.named "Rect"),
      must "layers" (.array (.named "AnyLayer")),
      must "name" (.primitive .string)] },
  { name := "Rect"
    origin := "file-format.schema.json#/definitions/Rect"
    description := some "Position and size of a layer"
    type := .record [
      must "_class" (.literal (.string "rect")),
      may "constrainProportions" (.primitive .boolean),
      must "height" (.primitive .number),
      must "width" (.primitive .number),
      must "x" (.primitive .number),
      must "y" (.primitive .number)] },
  { name := "Text"
    origin := "layers.schema.json#/definitions/Text"
    type := .record [
      must "_class" (.literal (.string "text")),
      may "attributedString" (.named "TextAttributedString"),
      may "booleanOperation" (.named "BooleanOperation"),
      must "do_objectID" (.primitive .string),
      must "frame" (.named "Rect"),
      may "isVisible" (.primitive .boolean),
      must "name" (.primitive .string)] },
  { name := "TextAttributedString"
    origin := "layers.schema.json#/definitions/Text/allOf/1/properties/attributedString"
    type := .record [
      must "string" (.primitive .string)] }]

/-- The catalog that the bindings are emitted for. -/
def catalog : Catalog := entries.foldl Catalog.insert {}

/-- Reads JSON as a type of the bindings. -/
def decode (name : String) (v : Json) : Except DecodeError EmittedValue :=
  EmittedType.decode catalog.plans (.named name) v []

/-- Writes a value of a type of the bindings. -/
def encode (name : String) (x : EmittedValue) : Option Json :=
  EmittedType.encode catalog Emit.defaultRuntime (.named name) x

end TypedArchive.Format
