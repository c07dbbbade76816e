import TypedArchive.Emit.Plan
import TypedArchive.Emit.Tree
import TypedArchive.Schema.Error

/-! The items emitted for a catalog entry: its type, how it is written and how it is read. -/

namespace TypedArchive.Emit

def plainType (names : List String) : CodeType := .path (.of names) []

def textType : CodeType := plainType ["smol_str", "SmolStr"]

def jsonType : CodeType := plainType ["serde_json", "Value"]

def mapType (value : CodeType) : CodeType :=
  .path (.of ["std", "collections", "BTreeMap"]) [textType, value]

def resultType (value error : CodeType) : CodeType := .path (.of ["Result"]) [value, error]

def selfType : CodeType := plainType ["Self"]

end TypedArchive.Emit

namespace TypedArchive

/-- The type as it is written. -/
def EmittedType.code : EmittedType → Emit.CodeType
  | .string => Emit.textType
  | .integer => Emit.plainType ["i64"]
  | .number => Emit.plainType ["serde_json", "Number"]
  | .boolean => Emit.plainType ["bool"]
  | .unit => .unit
  | .json => Emit.jsonType
  | .named name => Emit.plainType [Emit.identifier name]
  | .boxed t => .path (.of ["Box"]) [t.code]
  | .list t => .path (.of ["Vec"]) [t.code]
  | .map t => Emit.mapType t.code

end TypedArchive

namespace TypedArchive.Emit

def name (s : String) : Expr := .path (.of [s])

/-- A variant of the type at hand. -/
def selfVariant (variant : String) : CodePath := CodePath.of ["Self", variant]

/-- A literal as a JSON value. -/
def literalExpr : Literal → Expr
  | .string s => .call (.path (.of ["serde_json", "Value", "from"])) [.text s]
  | .integer i => .call (.path (.of ["serde_json", "Value", "from"])) [.integer i]
  | .boolean b => .call (.path (.of ["serde_json", "Value", "Bool"])) [.boolean b]
  | .null => .path (.of ["serde_json", "Value", "Null"])

/-- A text that lives as long as the program. -/
def fixedText (s : String) : Expr :=
  .call (.path (.of ["smol_str", "SmolStr", "new_static"])) [.text s]

/-- The text of a value. -/
def textOf (s : String) : Expr := .method (name s) "to_string" []

def okExpr (e : Expr) : Expr := .call (name "Ok") [e]

def errExpr (e : Expr) : Expr := .call (name "Err") [e]

/-- One line of documentation for each line of a description. -/
def documentation (description : Option String) : List Attribute :=
  match description with
  | none => []
  | some s => (Text.splitLines [] s.toList).map fun line =>
      .doc (String.ofList (' ' :: Text.trimEnd line)) false

/-- A name in the runtime's module of bindings. -/
def CodePath.binding (runtime : CodePath) (names : List String) : CodePath :=
  runtime.child ("binding" :: names)

/-- How a type is read from JSON, by the statements of a body that sees `value` and `path`. -/
def decodeItems (runtime : CodePath) (type : String) (body : List Statement) : List Item :=
  [.implementation none (some (.path (runtime.binding ["DecodeJson"]) [])) type
    [.function {
      name := "decode_at"
      arguments := [("value", .borrowed none jsonType),
        ("path", .exclusive (.path (runtime.binding ["FieldPath"]) []))]
      spread := true
      result := resultType selfType (.path (runtime.binding ["DecodeError"]) [])
      body }],
   .implementation (some "'de")
    (some (.path (.of ["serde", "Deserialize"]) [.lifetime "'de"])) type
    [.function {
      name := "deserialize"
      parameter := some ("D", .path (.of ["serde", "Deserializer"]) [.lifetime "'de"])
      arguments := [("deserializer", plainType ["D"])]
      result := resultType selfType (plainType ["D", "Error"])
      body := [.result (.call (.path (runtime.binding ["deserialize_json"]))
        [name "deserializer"])] }]]

/-- The name under which a type is known. -/
def bindingItem (runtime : CodePath) (type entry : String) : Item :=
  .implementation none (some (.path (runtime.binding ["Binding"]) [])) type
    [.constant "TYPE_NAME" (.borrowed (some "'static") (plainType ["str"])) (.text entry)]

/-- How a type is written, by a body that sees `serializer`. -/
def serializeItem (type : String) (body : Expr) : Item :=
  .implementation none (some (plainType ["serde", "Serialize"])) type
    [.function {
      name := "serialize"
      parameter := some ("S", plainType ["serde", "Serializer"])
      receiver := true
      arguments := [("serializer", plainType ["S"])]
      result := resultType (plainType ["S", "Ok"]) (plainType ["S", "Error"])
      body := [.result body] }]

def serializeCall (e : Expr) : Expr :=
  .call (.path (.of ["serde", "Serialize", "serialize"])) [e, name "serializer"]

/-- A function that gives each variant its own result. -/
def variantFunction (type function : String) (result : CodeType)
    (arms : List (Pattern × Expr)) : Item :=
  .implementation none none type
    [.function {
      visible := true
      name := function
      receiver := true
      arguments := []
      result
      body := [.result (.choice (name "self") arms)] }]

/-- The error for a value that is no member of an enum. -/
def unknownValue (runtime : CodePath) (entry : String) : Expr :=
  errExpr (.record (runtime.binding ["DecodeError", "UnknownEnumValue"])
    [("path", textOf "path"), ("type_name", fixedText entry), ("value", textOf "value")])

def derived (traits : List String) : List CodePath := traits.map fun t => .of [t]

/-- The reading of one member. -/
def readExpr (read : FieldRead) : Expr :=
  let arguments := [Expr.text read.key] ++
    (read.expected.map fun l => .borrow (literalExpr l)).toList
  let function := (if read.optional then "optional" else "required") ++
    (if read.expected.isSome then "_literal" else "")
  .orReturn (.method (name "reader") function arguments)

/-- The member for a field. -/
def fieldItem (description : Option String) (member : String) (read : FieldRead) : FieldItem :=
  { attributes := documentation description ++ [.serde ([("rename", some read.key)] ++
      if read.optional then [("skip_serializing_if", some "Option::is_none")] else [])]
    name := identifier member
    type := if read.optional then .path (.of ["Option"]) [read.type.code] else read.type.code }

/-- The member for the keys unknown to the schema. -/
def overflowItem : FieldItem :=
  { attributes := [.doc " Fields not described by the schema, preserved verbatim" true,
      .serde [("flatten", none)]]
    name := overflowName
    type := mapType jsonType }

def recordItems (runtime : CodePath) (entry : String) (docs : List Attribute)
    (fields : List Field) (reads : List FieldRead) : List Item :=
  let type := identifier entry
  let members := fieldNames fields
  let readAll := (members.zip reads).map fun (member, read) => (identifier member, readExpr read)
  [.struct (docs ++ [.derive (.of ["serde", "Serialize"] ::
        derived ["Debug", "Clone", "PartialEq"])]) type
      (((fields.map fun f => f.description).zip (members.zip reads)).map
        (fun (description, member, read) => fieldItem description member read) ++
        [overflowItem])] ++
    decodeItems runtime type
      [.bind (!reads.isEmpty) "reader" (.orReturn
        (.call (.path (runtime.binding ["RecordReader", "new"])) [name "value", name "path"])),
       .result (okExpr (.record (.of ["Self"])
        (readAll ++ [(overflowName, .method (name "reader") "finish" [])])))] ++
    [bindingItem runtime type entry]

/-- An enum of texts. -/
def textEnumItems (runtime : CodePath) (entry : String) (docs : List Attribute)
    (variants : List (String × String)) : List Item :=
  let type := identifier entry
  [.enumeration (docs ++ [.derive (.of ["serde", "Serialize"] ::
        derived ["Debug", "Clone", "Copy", "PartialEq", "Eq", "Hash"])]) type
      (variants.map fun (variant, text) =>
        { attributes := [.serde [("rename", some text)]], name := variant, payload := none }),
   variantFunction type "as_str" (.borrowed (some "'static") (plainType ["str"]))
      (variants.map fun (variant, text) => (.path (selfVariant variant), .text text))] ++
    decodeItems runtime type
      [.bind false "s" (.orReturn (.call
        (.traitItem textType (runtime.binding ["DecodeJson"]) "decode_at")
        [name "value", name "path"])),
       .result (.choice (.method (name "s") "as_str" [])
        ((variants.map fun (variant, text) =>
          (Pattern.text text, okExpr (.path (selfVariant variant)))) ++
          [(.wildcard, unknownValue runtime entry)]))] ++
    [bindingItem runtime type entry]

/-- The integers of an enum that has no other members. -/
def enumIntegers? (values : List Literal) : Option (List Int64) :=
  values.mapM fun l => match l with
    | .integer i => some i
    | _ => none

/-- An enum of other literals, compared as JSON. -/
def literalEnumItems (runtime : CodePath) (entry : String) (docs : List Attribute)
    (variants : List (String × Literal)) : List Item :=
  let type := identifier entry
  [.enumeration (docs ++ [.derive
        (derived ["Debug", "Clone", "Copy", "PartialEq", "Eq", "Hash"])]) type
      (variants.map fun (variant, _) => { attributes := [], name := variant, payload := none }),
   variantFunction type "to_value" jsonType
      (variants.map fun (variant, l) => (.path (selfVariant variant), literalExpr l))] ++
    (match enumIntegers? (variants.map fun v => v.2) with
      | some integers => [variantFunction type "as_i64" (plainType ["i64"])
          ((variants.zip integers).map fun ((variant, _), i) =>
            (.path (selfVariant variant), .integer i))]
      | none => []) ++
    [serializeItem type (serializeCall (.borrow (.method (name "self") "to_value" [])))] ++
    decodeItems runtime type
      ((variants.map fun (variant, l) => .returnIf
        (.binary (.deref (name "value")) "==" (literalExpr l))
        (okExpr (.path (selfVariant variant)))) ++
        [.result (unknownValue runtime entry)]) ++
    [bindingItem runtime type entry]

/-- The test for a shape. -/
def shapeTest : Shape → Expr
  | .object [] => .method (name "value") "is_object" []
  | .object required =>
    .method (.method (name "value") "as_object" []) "is_some_and"
      [.closure "map" (required.foldl (fun test key =>
        .binary test "&&" (.method (name "map") "contains_key" [.text key])) (.boolean true))]
  | .array => .method (name "value") "is_array" []
  | .string => .method (name "value") "is_string" []
  | .integer =>
    .binary (.method (name "value") "is_i64" []) "||" (.method (name "value") "is_u64" [])
  | .number => .method (name "value") "is_number" []
  | .boolean => .method (name "value") "is_boolean" []
  | .null => .method (name "value") "is_null" []
  | .any => .boolean true

/-- The type of a variant's payload: emitted types are held in boxes. -/
def payloadCode : EmittedType → CodeType
  | .named name => (EmittedType.boxed (.named name)).code
  | t => t.code

/-- The reading of a variant's payload. -/
def variantRead (runtime : CodePath) (variant : String) (payload : EmittedType) : Expr :=
  let read := Expr.call (.traitItem payload.code (runtime.binding ["DecodeJson"]) "decode_at")
    [name "value", name "path"]
  let variantPath := Expr.path (selfVariant variant)
  .method read "map" [match payload with
    | .named _ => .closure "inner" (.call variantPath
        [.call (.path (.of ["Box", "new"])) [name "inner"]])
    | _ => variantPath]

/-- Tests of shapes in order; nothing comes after a variant that any value fits. -/
def shapeStatements (runtime : CodePath) (entry : String) :
    List (String × Shape × EmittedType) → List Statement
  | [] => [.result (errExpr (.record (runtime.binding ["DecodeError", "NoMatchingVariant"])
      [("path", textOf "path"), ("type_name", fixedText entry)]))]
  | (variant, shape, payload) :: rest =>
    if shape = .any then [.result (variantRead runtime variant payload)]
    else .returnIf (shapeTest shape) (variantRead runtime variant payload) ::
      shapeStatements runtime entry rest

/-- Tests of the tag in order. -/
def tagStatements (runtime : CodePath) (entry discriminant : String)
    (variants : List (String × Option Literal × EmittedType)) : List Statement :=
  [.bind false "tag" (.orReturn (.call (.path (runtime.binding ["union_tag"]))
    [name "value", .text discriminant, name "path"]))] ++
  (variants.filterMap fun (variant, tag, payload) => tag.map fun l =>
    .returnIf (.binary (.deref (name "tag")) "==" (literalExpr l))
      (variantRead runtime variant payload)) ++
  [.result (errExpr (.record (runtime.binding ["DecodeError", "UnknownTag"])
    [("path", textOf "path"), ("type_name", fixedText entry),
     ("discriminant", fixedText discriminant), ("tag", textOf "tag")]))]

def unionItems (runtime : CodePath) (entry : String) (docs : List Attribute)
    (variants : List (String × EmittedType)) (body : List Statement) : List Item :=
  let type := identifier entry
  [.enumeration (docs ++ [.derive (derived ["Debug", "Clone", "PartialEq"])]) type
      (variants.map fun (variant, payload) =>
        { attributes := []
          name := variant
          payload := some (payloadCode payload) }),
   serializeItem type (.choice (name "self") (variants.map fun (variant, _) =>
      (.payload (selfVariant variant) "inner", serializeCall (name "inner"))))] ++
    decodeItems runtime type body ++
    [bindingItem runtime type entry]

end TypedArchive.Emit

namespace TypedArchive

/-- The items for an entry. -/
def Catalog.items (c : Catalog) (runtime : Emit.CodePath) (e : Entry) :
    Except SchemaError (List Emit.Item) :=
  let docs := Emit.documentation e.description
  match e.type with
  | .record fields =>
    .ok (Emit.recordItems runtime e.name docs fields (fields.map (c.fieldRead e.name)))
  | .enumeration values descriptions =>
    let names := (Emit.enumNames values descriptions).map Emit.identifier
    if values.isEmpty then .error (.emit e.name "enum has no values")
    else match enumTexts? values with
      | some texts => .ok (Emit.textEnumItems runtime e.name docs (names.zip texts))
      | none => .ok (Emit.literalEnumItems runtime e.name docs (names.zip values))
  | .union discriminant variants =>
    let names := (Emit.unionNames variants).map Emit.identifier
    let payloads := variants.map fun v => EmittedType.ofRef v.type
    if variants.isEmpty then .error (.emit e.name "union has no variants")
    else .ok (Emit.unionItems runtime e.name docs (names.zip payloads)
      (match discriminant with
        | some key => Emit.tagStatements runtime e.name key
            (names.zip ((variants.map fun v => v.tag).zip payloads))
        | none => Emit.shapeStatements runtime e.name
            (names.zip ((variants.map fun v => v.shape).zip payloads))))
  | .array t => .ok [.alias docs (Emit.identifier e.name) (EmittedType.list (.ofRef t)).code]
  | .alias t => .ok [.alias docs (Emit.identifier e.name) (EmittedType.ofRef t).code]

end TypedArchive
