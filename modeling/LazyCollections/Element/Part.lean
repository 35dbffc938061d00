import LazyCollections.Element.Type
import LazyCollections.Value.Order

/-!
# Parts

A part is an entity with an identity that stays and a state, its name and version, that changes. It
is stored as a map with one field for each of them.
-/

namespace LazyCollections

set_option autoImplicit false

structure Part where
  id : EntityId
  name : String
  version : Int64
deriving DecidableEq

namespace Part

def revised (part : Part) : Part :=
  { part with version := part.version + 1 }

def isDirty (current old : Part) : Bool :=
  current.name ≠ old.name || current.version ≠ old.version

def inspect (part : Part) : String :=
  Text.inspectRecord "Part"
    [("id", part.id.inspect), ("name", Text.quoted part.name),
     ("version", Text.decimal part.version)]

def toValue (part : Part) : Value :=
  .ofEntries
    [(.text "id", .bytes part.id.bytes), (.text "name", .text part.name),
     (.text "version", .integer part.version)]

def readField {α : Type} (v : Value) (name description : String) (read : Value → Option α) :
    Except Error α :=
  match v.get? name >>= read with
  | some a => .ok a
  | none => .error (.conversion (.partWithout description))

def ofValue (v : Value) : Except Error Part := do
  let id ← readField v "id" "16-byte id" fun w => w.asBytes? >>= EntityId.ofBytes?
  let name ← readField v "name" "name" Value.asText?
  let version ← readField v "version" "version" Value.asInteger?
  return { id, name, version }

theorem toValue_eq (part : Part) :
    part.toValue = .map
      [(.text "id", .bytes part.id.bytes), (.text "name", .text part.name),
       (.text "version", .integer part.version)] := rfl

@[simp] theorem ofValue_toValue (part : Part) : ofValue part.toValue = .ok part := by
  simp [toValue_eq, ofValue, readField, Value.get?, Value.asMap?, Value.asText?, Value.asBytes?,
    Value.asInteger?]
  rfl

/-- Parts as elements: the identity is the id, and the state is the name and the version. -/
def elementType : ElementType where
  Element := Part
  Id := EntityId
  ord := inferInstance
  transOrd := EntityId.instTransOrd
  lawfulOrd := EntityId.instLawfulEqOrd
  idOf := id
  deepCopy part := part
  isDirty := isDirty
  externalize part := .ok part.toValue
  externalizeId part := .ok (.bytes part.id.bytes)
  internalize := ofValue
  inspect := inspect
  inspectId := EntityId.inspect

end Part

end LazyCollections
