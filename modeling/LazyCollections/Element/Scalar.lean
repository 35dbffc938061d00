import LazyCollections.Error

/-!
# Scalars

A scalar type has a total order and is stored as a single value. Scalars serve as keys of keyed
collections and as elements that are their own identity.
-/

namespace LazyCollections

set_option autoImplicit false

structure Scalar where
  Carrier : Type
  ord : Ord Carrier
  transOrd : Std.TransOrd Carrier
  lawfulOrd : Std.LawfulEqOrd Carrier
  typeName : String
  toValue : Carrier → Value
  fromValue? : Value → Option Carrier
  inspect : Carrier → String

namespace Scalar

instance (S : Scalar) : Ord S.Carrier := S.ord
instance (S : Scalar) : Std.TransOrd S.Carrier := S.transOrd
instance (S : Scalar) : Std.LawfulEqOrd S.Carrier := S.lawfulOrd

instance (S : Scalar) : DecidableEq S.Carrier := fun a b =>
  decidable_of_iff (compare a b = .eq) Std.LawfulEqCmp.compare_eq_iff_eq

def fromValue (S : Scalar) (v : Value) : Except Error S.Carrier :=
  match S.fromValue? v with
  | some s => .ok s
  | none => .error (.conversion (.kind S.typeName v.typeName))

/-- Texts are ordered by code points. -/
def text : Scalar where
  Carrier := String
  ord := inferInstance
  transOrd := inferInstance
  lawfulOrd := inferInstance
  typeName := "text"
  toValue := .text
  fromValue? := Value.asText?
  inspect := Text.quoted

def integer : Scalar where
  Carrier := Int64
  ord := inferInstance
  transOrd := inferInstance
  lawfulOrd := inferInstance
  typeName := "integer"
  toValue := .integer
  fromValue? := Value.asInteger?
  inspect := Text.decimal

/-- False comes before true. -/
def bool : Scalar where
  Carrier := Bool
  ord := inferInstance
  transOrd := inferInstance
  lawfulOrd := inferInstance
  typeName := "bool"
  toValue := .bool
  fromValue? := Value.asBool?
  inspect := Text.inspectBool

def entityId : Scalar where
  Carrier := EntityId
  ord := inferInstance
  transOrd := inferInstance
  lawfulOrd := inferInstance
  typeName := "entity id"
  toValue id := .bytes id.bytes
  fromValue? v := v.asBytes? >>= EntityId.ofBytes?
  inspect := EntityId.inspect

/-- The key type of collections without keys. -/
def unkeyed : Scalar where
  Carrier := Empty
  ord := ⟨nofun⟩
  transOrd :=
    @Std.TransCmp.mk _ _ (@Std.OrientedCmp.mk _ _ (@fun a => nomatch a)) (@fun a => nomatch a)
  lawfulOrd :=
    @Std.LawfulEqCmp.mk _ _ (@Std.ReflCmp.mk _ _ (@fun a => nomatch a)) (@fun a => nomatch a)
  typeName := "no key"
  toValue := nofun
  fromValue? _ := none
  inspect := nofun

@[simp] theorem fromValue?_text (s : String) : text.fromValue? (text.toValue s) = some s := rfl

@[simp] theorem fromValue?_integer (n : Int64) :
    integer.fromValue? (integer.toValue n) = some n := rfl

@[simp] theorem fromValue?_bool (b : Bool) : bool.fromValue? (bool.toValue b) = some b := rfl

@[simp] theorem fromValue?_entityId (id : EntityId) :
    entityId.fromValue? (entityId.toValue id) = some id :=
  EntityId.ofBytes?_bytes id

end Scalar

end LazyCollections
