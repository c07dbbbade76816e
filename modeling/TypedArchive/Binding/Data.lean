import TypedArchive.Catalog.Literal

/-! Decoded values. A record keeps the members that its type declares apart from those that it does
not know. -/

namespace TypedArchive

inductive Data where
  | null
  | boolean (b : Bool)
  | integer (i : Int64)
  /-- Any JSON number, as it was read. -/
  | number (n : Number)
  | string (s : String)
  | array (items : List Data)
  /-- Any keys, and values of one type. -/
  | map (entries : List (String × Data))
  | record (typeName : String) (fields : List (String × Data)) (extra : List (String × Json))
  | enumeration (typeName : String) (value : Literal)
  | union (typeName : String) (tag : Option Literal) (variant : Nat) (value : Data)
  /-- JSON without any constraint. -/
  | unknown (v : Json)
  deriving Repr

instance : Inhabited Data := ⟨.null⟩

namespace Data

mutual

def decEq : (a b : Data) → Decidable (a = b)
  | .null, .null => isTrue rfl
  | .boolean a, .boolean b => if h : a = b then isTrue (h ▸ rfl) else isFalse (by simpa)
  | .integer a, .integer b => if h : a = b then isTrue (h ▸ rfl) else isFalse (by simpa)
  | .number a, .number b => if h : a = b then isTrue (h ▸ rfl) else isFalse (by simpa)
  | .string a, .string b => if h : a = b then isTrue (h ▸ rfl) else isFalse (by simpa)
  | .array a, .array b =>
    match decEqItems a b with
    | isTrue h => isTrue (h ▸ rfl)
    | isFalse h => isFalse (by simpa)
  | .map a, .map b =>
    match decEqEntries a b with
    | isTrue h => isTrue (h ▸ rfl)
    | isFalse h => isFalse (by simpa)
  | .record s a x, .record t b y =>
    if h : s = t ∧ x = y then
      match decEqEntries a b with
      | isTrue h' => isTrue (by simp [h, h'])
      | isFalse h' => isFalse (by simp [h'])
    else isFalse (by simp only [record.injEq]; exact fun h' => h ⟨h'.1, h'.2.2⟩)
  | .enumeration s a, .enumeration t b =>
    if h : s = t ∧ a = b then isTrue (by simp [h]) else isFalse (by simpa using h)
  | .union s g i a, .union t k j b =>
    if h : s = t ∧ g = k ∧ i = j then
      match a.decEq b with
      | isTrue h' => isTrue (by simp [h, h'])
      | isFalse h' => isFalse (by simp [h'])
    else isFalse (by simp only [union.injEq]; exact fun h' => h ⟨h'.1, h'.2.1, h'.2.2.1⟩)
  | .unknown a, .unknown b => if h : a = b then isTrue (h ▸ rfl) else isFalse (by simpa)
  | .null, .boolean _ | .null, .integer _ | .null, .number _ | .null, .string _ | .null, .array _
  | .null, .map _ | .null, .record .. | .null, .enumeration .. | .null, .union ..
  | .null, .unknown _ | .boolean _, .null | .boolean _, .integer _ | .boolean _, .number _
  | .boolean _, .string _ | .boolean _, .array _ | .boolean _, .map _ | .boolean _, .record ..
  | .boolean _, .enumeration .. | .boolean _, .union .. | .boolean _, .unknown _
  | .integer _, .null | .integer _, .boolean _ | .integer _, .number _ | .integer _, .string _
  | .integer _, .array _ | .integer _, .map _ | .integer _, .record ..
  | .integer _, .enumeration .. | .integer _, .union .. | .integer _, .unknown _
  | .number _, .null | .number _, .boolean _ | .number _, .integer _ | .number _, .string _
  | .number _, .array _ | .number _, .map _ | .number _, .record .. | .number _, .enumeration ..
  | .number _, .union .. | .number _, .unknown _ | .string _, .null | .string _, .boolean _
  | .string _, .integer _ | .string _, .number _ | .string _, .array _ | .string _, .map _
  | .string _, .record .. | .string _, .enumeration .. | .string _, .union ..
  | .string _, .unknown _ | .array _, .null | .array _, .boolean _ | .array _, .integer _
  | .array _, .number _ | .array _, .string _ | .array _, .map _ | .array _, .record ..
  | .array _, .enumeration .. | .array _, .union .. | .array _, .unknown _ | .map _, .null
  | .map _, .boolean _ | .map _, .integer _ | .map _, .number _ | .map _, .string _
  | .map _, .array _ | .map _, .record .. | .map _, .enumeration .. | .map _, .union ..
  | .map _, .unknown _ | .record .., .null | .record .., .boolean _ | .record .., .integer _
  | .record .., .number _ | .record .., .string _ | .record .., .array _ | .record .., .map _
  | .record .., .enumeration .. | .record .., .union .. | .record .., .unknown _
  | .enumeration .., .null | .enumeration .., .boolean _ | .enumeration .., .integer _
  | .enumeration .., .number _ | .enumeration .., .string _ | .enumeration .., .array _
  | .enumeration .., .map _ | .enumeration .., .record .. | .enumeration .., .union ..
  | .enumeration .., .unknown _ | .union .., .null | .union .., .boolean _ | .union .., .integer _
  | .union .., .number _ | .union .., .string _ | .union .., .array _ | .union .., .map _
  | .union .., .record .. | .union .., .enumeration .. | .union .., .unknown _ | .unknown _, .null
  | .unknown _, .boolean _ | .unknown _, .integer _ | .unknown _, .number _ | .unknown _, .string _
  | .unknown _, .array _ | .unknown _, .map _ | .unknown _, .record .. | .unknown _, .enumeration ..
  | .unknown _, .union .. => isFalse nofun

def decEqItems : (a b : List Data) → Decidable (a = b)
  | [], [] => isTrue rfl
  | [], _ :: _ | _ :: _, [] => isFalse nofun
  | a :: as, b :: bs =>
    match a.decEq b, decEqItems as bs with
    | isTrue h, isTrue h' => isTrue (h ▸ h' ▸ rfl)
    | isFalse h, _ => isFalse (by simp [h])
    | _, isFalse h => isFalse (by simp [h])

def decEqEntries : (a b : List (String × Data)) → Decidable (a = b)
  | [], [] => isTrue rfl
  | [], _ :: _ | _ :: _, [] => isFalse nofun
  | (k, a) :: as, (l, b) :: bs =>
    if hk : k = l then
      match a.decEq b, decEqEntries as bs with
      | isTrue h, isTrue h' => isTrue (hk ▸ h ▸ h' ▸ rfl)
      | isFalse h, _ => isFalse (by simp [h])
      | _, isFalse h => isFalse (by simp [h])
    else isFalse (by simp [hk])

end

instance : DecidableEq Data := decEq

end Data

/-- An object decoded against a record type: its declared members, and all others. -/
structure Record where
  typeName : String
  fields : Assoc Data := []
  extra : Assoc Json := []
  deriving DecidableEq, Repr

namespace Data

/-- The text that a value is, seen through unions. -/
def asString? : Data → Option String
  | .string s => some s
  | .enumeration _ l => l.asString?
  | .union _ _ _ d => d.asString?
  | .unknown v => v.asString?
  | _ => none

def asInt64? : Data → Option Int64
  | .integer i => some i
  | .number n => n.toInt64?
  | .enumeration _ (.integer i) => some i
  | _ => none

def asBool? : Data → Option Bool
  | .boolean b => some b
  | _ => none

def asArray? : Data → Option (List Data)
  | .array items => some items
  | _ => none

/-- The record that a value is, seen through unions. -/
def asRecord? : Data → Option Record
  | .record typeName fields extra => some { typeName, fields, extra }
  | .union _ _ _ d => d.asRecord?
  | _ => none

/-- Changes the record that a value is, inside its unions. -/
def modifyRecord (f : Record → Record) : Data → Data
  | .record typeName fields extra =>
    let r := f { typeName, fields, extra }
    .record r.typeName r.fields r.extra
  | .union typeName tag variant d => .union typeName tag variant (d.modifyRecord f)
  | d => d

/-- The catalog type of a record, enum or union. -/
def typeName? : Data → Option String
  | .record typeName .. | .enumeration typeName _ | .union typeName .. => some typeName
  | _ => none

def kind : Data → String
  | .null => "null"
  | .boolean _ => "boolean"
  | .integer _ => "integer"
  | .number _ => "number"
  | .string _ => "string"
  | .array _ => "array"
  | .map _ => "map"
  | .record .. => "record"
  | .enumeration .. => "enum"
  | .union .. => "union"
  | .unknown _ => "unknown"

/-- Adds members to an object, each in the place of one with its key. -/
def overlay (base : Assoc Json) (members : List (String × Json)) : Assoc Json :=
  members.foldl (fun m p => m.insert p.1 p.2) base

mutual

/-- The JSON of a value, whatever the catalog says; a declared member wins over an unknown one of
its key. -/
def toJson : Data → Json
  | .null => .null
  | .boolean b => .bool b
  | .integer i => .ofInt64 i
  | .number n => .number n
  | .string s => .string s
  | .array items => .array (itemsToJson items)
  | .map entries => .object (entriesToJson entries)
  | .record _ fields extra => .object (overlay extra (entriesToJson fields))
  | .enumeration _ l => l.toJson
  | .union _ _ _ d => d.toJson
  | .unknown v => v

def itemsToJson : List Data → List Json
  | [] => []
  | d :: rest => d.toJson :: itemsToJson rest

def entriesToJson : List (String × Data) → List (String × Json)
  | [] => []
  | (k, d) :: rest => (k, d.toJson) :: entriesToJson rest

end

end Data

namespace Record

def toData (r : Record) : Data := .record r.typeName r.fields r.extra

def get? (r : Record) (name : String) : Option Data := r.fields.get? name

def insert (r : Record) (name : String) (d : Data) : Record :=
  { r with fields := r.fields.insert name d }

def erase (r : Record) (name : String) : Record := { r with fields := r.fields.erase name }

/-- The text of a declared member. -/
def getString? (r : Record) (name : String) : Option String := (r.get? name).bind Data.asString?

end Record

end TypedArchive
