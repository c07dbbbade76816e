import TypedArchive.Binding.Path

/-! Why JSON does not fit a type, and why a value cannot be written as one. -/

namespace TypedArchive

inductive DecodeError where
  | missingField (path : FieldPath)
  | typeMismatch (path : FieldPath) (expected found : String)
  | unknownEnumValue (path : FieldPath) (typeName value : String)
  | unknownTag (path : FieldPath) (typeName discriminant tag : String)
  | noMatchingVariant (path : FieldPath) (typeName : String)
  | unknownType (path : FieldPath) (typeName : String)
  | custom (path : FieldPath) (text : String)
  deriving DecidableEq, Repr

namespace DecodeError

def path : DecodeError → FieldPath
  | missingField path | typeMismatch path .. | unknownEnumValue path .. | unknownTag path ..
  | noMatchingVariant path _ | unknownType path _ | custom path _ => path

def message : DecodeError → String
  | missingField path => "missing required field at " ++ path.text
  | typeMismatch path expected found =>
    "type mismatch at " ++ path.text ++ ": expected " ++ expected ++ ", found " ++ found
  | unknownEnumValue path typeName value =>
    "unknown value " ++ value ++ " at " ++ path.text ++ " for enum " ++ typeName
  | unknownTag path typeName discriminant tag =>
    "unknown \x60" ++ discriminant ++ "\x60 value " ++ tag ++ " at " ++ path.text ++ " for union "
      ++ typeName
  | noMatchingVariant path typeName =>
    "no variant of " ++ typeName ++ " matches the value at " ++ path.text
  | unknownType path typeName => "unknown type " ++ typeName ++ " requested at " ++ path.text
  | custom path text => text ++ " at " ++ path.text

end DecodeError

/-- What a value would have to be to be written. -/
inductive Expectation where
  | unknownType (name : String)
  | enumMember (value typeName : String)
  | kind (expected found : String)
  | literal (expected found : String)
  | recordType (expected found : String)
  | declaredField (name typeName : String)
  | requiredField
  | variant (typeName : String) (index : Nat)
  | custom (text : String)
  deriving DecidableEq, Repr

def Expectation.text : Expectation → String
  | unknownType name => "unknown type " ++ name
  | enumMember value typeName => value ++ " is not a member of enum " ++ typeName
  | kind expected found => expected ++ ", found " ++ found
  | literal expected found => "literal " ++ expected ++ ", found " ++ found
  | recordType expected found => "record " ++ expected ++ ", found record " ++ found
  | declaredField name typeName =>
    "\x60" ++ name ++ "\x60 is not a field of " ++ typeName ++ "; put unknown fields in extra_data"
  | requiredField => "required field is missing"
  | variant typeName index => typeName ++ " has no variant " ++ toString index
  | custom text => text

structure EncodeError where
  path : FieldPath
  expected : Expectation
  deriving DecidableEq, Repr

def EncodeError.message (e : EncodeError) : String :=
  "cannot encode value at " ++ e.path.text ++ ": " ++ e.expected.text

end TypedArchive
