import TypedArchive.Assoc
import TypedArchive.Decimal.Double

/-! JSON values. Objects are association lists; `Json.Sorted` says that every object in a value
keeps its keys in strictly increasing order, which makes equality of values structural. -/

namespace TypedArchive

/-- A JSON number: a whole number of the signed or unsigned 64-bit range, or a double. -/
inductive Number where
  | integer (i : Int) (fits : -0x8000000000000000 ≤ i ∧ i < 0x10000000000000000)
  | double (x : Double)
  deriving DecidableEq, Repr

namespace Number

def ofInt64 (i : Int64) : Number :=
  .integer i.toInt ⟨i.le_toInt, Int.lt_trans i.toInt_lt (by decide)⟩

/-- The signed 64-bit integer that the number is; a double is none. -/
def toInt64? : Number → Option Int64
  | .integer i _ => if i < 0x8000000000000000 then some (Int64.ofInt i) else none
  | .double _ => none

def isInteger : Number → Bool
  | .integer .. => true
  | .double _ => false

/-- Equality of numbers of one form; the two zeros among the doubles are equal. -/
def same : Number → Number → Bool
  | .integer i _, .integer j _ => i == j
  | .double x, .double y => x.same y
  | _, _ => false

@[simp] theorem toInt64?_ofInt64 (i : Int64) : (ofInt64 i).toInt64? = some i := by
  have bound : i.toInt < 0x8000000000000000 := i.toInt_lt
  simp only [ofInt64, toInt64?, if_pos bound, Int64.ofInt_toInt]

end Number

inductive Json where
  | null
  | bool (b : Bool)
  | number (n : Number)
  | string (s : String)
  | array (items : List Json)
  | object (members : List (String × Json))
  deriving Repr

instance : Inhabited Json := ⟨.null⟩

namespace Json

mutual

def decEq : (a b : Json) → Decidable (a = b)
  | .null, .null => isTrue rfl
  | .bool a, .bool b => if h : a = b then isTrue (h ▸ rfl) else isFalse (by simpa)
  | .number a, .number b => if h : a = b then isTrue (h ▸ rfl) else isFalse (by simpa)
  | .string a, .string b => if h : a = b then isTrue (h ▸ rfl) else isFalse (by simpa)
  | .array a, .array b =>
    match decEqItems a b with
    | isTrue h => isTrue (h ▸ rfl)
    | isFalse h => isFalse (by simpa)
  | .object a, .object b =>
    match decEqMembers a b with
    | isTrue h => isTrue (h ▸ rfl)
    | isFalse h => isFalse (by simpa)
  | .null, .bool _ | .null, .number _ | .null, .string _ | .null, .array _ | .null, .object _
  | .bool _, .null | .bool _, .number _ | .bool _, .string _ | .bool _, .array _
  | .bool _, .object _ | .number _, .null | .number _, .bool _ | .number _, .string _
  | .number _, .array _ | .number _, .object _ | .string _, .null | .string _, .bool _
  | .string _, .number _ | .string _, .array _ | .string _, .object _ | .array _, .null
  | .array _, .bool _ | .array _, .number _ | .array _, .string _ | .array _, .object _
  | .object _, .null | .object _, .bool _ | .object _, .number _ | .object _, .string _
  | .object _, .array _ => isFalse nofun

def decEqItems : (a b : List Json) → Decidable (a = b)
  | [], [] => isTrue rfl
  | [], _ :: _ | _ :: _, [] => isFalse nofun
  | a :: as, b :: bs =>
    match a.decEq b, decEqItems as bs with
    | isTrue h, isTrue h' => isTrue (h ▸ h' ▸ rfl)
    | isFalse h, _ => isFalse (by simp [h])
    | _, isFalse h => isFalse (by simp [h])

def decEqMembers : (a b : List (String × Json)) → Decidable (a = b)
  | [], [] => isTrue rfl
  | [], _ :: _ | _ :: _, [] => isFalse nofun
  | (k, a) :: as, (l, b) :: bs =>
    if hk : k = l then
      match a.decEq b, decEqMembers as bs with
      | isTrue h, isTrue h' => isTrue (hk ▸ h ▸ h' ▸ rfl)
      | isFalse h, _ => isFalse (by simp [h])
      | _, isFalse h => isFalse (by simp [h])
    else isFalse (by simp [hk])

end

instance : DecidableEq Json := decEq

mutual

/-- Every object in the value keeps its keys in strictly increasing order. -/
def Sorted : Json → Prop
  | .array items => ItemsSorted items
  | .object members => Assoc.Sorted members ∧ MembersSorted members
  | _ => True

def ItemsSorted : List Json → Prop
  | [] => True
  | v :: rest => v.Sorted ∧ ItemsSorted rest

def MembersSorted : List (String × Json) → Prop
  | [] => True
  | (_, v) :: rest => v.Sorted ∧ MembersSorted rest

end

mutual

/-- Equality of values in which the two zeros among the doubles are equal. -/
def same : Json → Json → Bool
  | .null, .null => true
  | .bool a, .bool b => a == b
  | .number a, .number b => a.same b
  | .string a, .string b => a == b
  | .array a, .array b => sameItems a b
  | .object a, .object b => sameMembers a b
  | _, _ => false

def sameItems : List Json → List Json → Bool
  | [], [] => true
  | a :: as, b :: bs => a.same b && sameItems as bs
  | _, _ => false

def sameMembers : List (String × Json) → List (String × Json) → Bool
  | [], [] => true
  | (k, a) :: as, (l, b) :: bs => k == l && a.same b && sameMembers as bs
  | _, _ => false

end

/-- The word for the kind of a value; whole numbers have one of their own. -/
def kind : Json → String
  | .null => "null"
  | .bool _ => "boolean"
  | .number n => if n.isInteger then "integer" else "number"
  | .string _ => "string"
  | .array _ => "array"
  | .object _ => "object"

/-- The value of an object's member. -/
def get? : Json → String → Option Json
  | .object members, key => Assoc.get? members key
  | _, _ => none

def asString? : Json → Option String
  | .string s => some s
  | _ => none

def ofInt64 (i : Int64) : Json := .number (.ofInt64 i)

end Json

end TypedArchive
