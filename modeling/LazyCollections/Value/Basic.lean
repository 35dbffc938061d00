/-!
# Stored values

The form in which elements and keys leave the program: nulls, booleans, 64-bit integers, bytes,
texts, arrays and maps. A map is a list of entries in the order in which it was assembled, and
two maps are equal only if their entries agree one by one.
-/

namespace LazyCollections

set_option autoImplicit false

inductive Value where
  | null
  | bool (b : Bool)
  | integer (n : Int64)
  | bytes (bs : List UInt8)
  | text (s : String)
  | array (items : List Value)
  | map (entries : List (Value × Value))

namespace Value

instance : Inhabited Value := ⟨null⟩

mutual

def decEq : (a b : Value) → Decidable (a = b)
  | .null, .null => isTrue rfl
  | .bool a, .bool b => decidable_of_iff (a = b) (by simp)
  | .integer a, .integer b => decidable_of_iff (a = b) (by simp)
  | .bytes a, .bytes b => decidable_of_iff (a = b) (by simp)
  | .text a, .text b => decidable_of_iff (a = b) (by simp)
  | .array a, .array b => @decidable_of_iff _ (a = b) (by simp) (decEqItems a b)
  | .map a, .map b => @decidable_of_iff _ (a = b) (by simp) (decEqEntries a b)
  | .null, .bool _ | .null, .integer _ | .null, .bytes _ | .null, .text _ | .null, .array _
  | .null, .map _ => isFalse nofun
  | .bool _, .null | .bool _, .integer _ | .bool _, .bytes _ | .bool _, .text _
  | .bool _, .array _ | .bool _, .map _ => isFalse nofun
  | .integer _, .null | .integer _, .bool _ | .integer _, .bytes _ | .integer _, .text _
  | .integer _, .array _ | .integer _, .map _ => isFalse nofun
  | .bytes _, .null | .bytes _, .bool _ | .bytes _, .integer _ | .bytes _, .text _
  | .bytes _, .array _ | .bytes _, .map _ => isFalse nofun
  | .text _, .null | .text _, .bool _ | .text _, .integer _ | .text _, .bytes _
  | .text _, .array _ | .text _, .map _ => isFalse nofun
  | .array _, .null | .array _, .bool _ | .array _, .integer _ | .array _, .bytes _
  | .array _, .text _ | .array _, .map _ => isFalse nofun
  | .map _, .null | .map _, .bool _ | .map _, .integer _ | .map _, .bytes _
  | .map _, .text _ | .map _, .array _ => isFalse nofun

def decEqItems : (as bs : List Value) → Decidable (as = bs)
  | [], [] => isTrue rfl
  | [], _ :: _ => isFalse nofun
  | _ :: _, [] => isFalse nofun
  | a :: as, b :: bs =>
    match decEq a b, decEqItems as bs with
    | isTrue h, isTrue hs => isTrue (h ▸ hs ▸ rfl)
    | isFalse h, _ => isFalse fun heq => h (List.cons.inj heq).1
    | _, isFalse hs => isFalse fun heq => hs (List.cons.inj heq).2

def decEqEntries : (as bs : List (Value × Value)) → Decidable (as = bs)
  | [], [] => isTrue rfl
  | [], _ :: _ => isFalse nofun
  | _ :: _, [] => isFalse nofun
  | (k, v) :: as, (l, w) :: bs =>
    match decEq k l, decEq v w, decEqEntries as bs with
    | isTrue h, isTrue h', isTrue hs => isTrue (h ▸ h' ▸ hs ▸ rfl)
    | isFalse h, _, _ => isFalse fun heq => h (Prod.mk.inj (List.cons.inj heq).1).1
    | _, isFalse h, _ => isFalse fun heq => h (Prod.mk.inj (List.cons.inj heq).1).2
    | _, _, isFalse hs => isFalse fun heq => hs (List.cons.inj heq).2

end

instance : DecidableEq Value := decEq

def isNull : Value → Bool
  | null => true
  | _ => false

def asBool? : Value → Option Bool
  | bool b => some b
  | _ => none

def asInteger? : Value → Option Int64
  | integer n => some n
  | _ => none

def asText? : Value → Option String
  | text s => some s
  | _ => none

def asBytes? : Value → Option (List UInt8)
  | bytes bs => some bs
  | _ => none

def asArray? : Value → Option (List Value)
  | array items => some items
  | _ => none

def asMap? : Value → Option (List (Value × Value))
  | map entries => some entries
  | _ => none

/-- The first entry of a map under a text. -/
def get? (value : Value) (key : String) : Option Value := do
  let entries ← value.asMap?
  let entry ← entries.find? fun e => e.1.asText? = some key
  return entry.2

def typeName : Value → String
  | null => "null"
  | bool _ => "bool"
  | integer _ => "integer"
  | bytes _ => "bytes"
  | text _ => "text"
  | array _ => "array"
  | map _ => "map"

@[simp] theorem isNull_iff {v : Value} : v.isNull = true ↔ v = null := by
  cases v <;> simp [isNull]

end Value

end LazyCollections
