import LazyCollections.Element.Scalar

/-!
# Element types

A collection never compares, copies or converts its elements itself. Their type says which
elements are the same entity, when the state of an entity has changed, and how an element is
stored.
-/

namespace LazyCollections

set_option autoImplicit false

structure ElementType where
  Element : Type
  Id : Type
  ord : Ord Id
  transOrd : Std.TransOrd Id
  lawfulOrd : Std.LawfulEqOrd Id
  idOf : Element → Id
  deepCopy : Element → Element
  /-- Whether the first element differs in state from the second, which is the older one. -/
  isDirty : Element → Element → Bool
  externalize : Element → Except Error Value
  externalizeId : Element → Except Error Value
  internalize : Value → Except Error Element
  inspect : Element → String
  inspectId : Id → String

namespace ElementType

instance (T : ElementType) : Ord T.Id := T.ord
instance (T : ElementType) : Std.TransOrd T.Id := T.transOrd
instance (T : ElementType) : Std.LawfulEqOrd T.Id := T.lawfulOrd

instance (T : ElementType) : DecidableEq T.Id := fun a b =>
  decidable_of_iff (compare a b = .eq) Std.LawfulEqCmp.compare_eq_iff_eq

def same (T : ElementType) (a b : T.Element) : Bool :=
  T.idOf a = T.idOf b

def internalizeSlot (T : ElementType) (v : Value) : Except Error (Option T.Element) :=
  if v.isNull then .ok none else return some (← T.internalize v)

/-- A scalar is its own identity, and any other scalar is another entity. -/
def ofScalar (S : Scalar) : ElementType where
  Element := S.Carrier
  Id := S.Carrier
  ord := S.ord
  transOrd := S.transOrd
  lawfulOrd := S.lawfulOrd
  idOf s := s
  deepCopy s := s
  isDirty current old := current ≠ old
  externalize s := .ok (S.toValue s)
  externalizeId s := .ok (S.toValue s)
  internalize := S.fromValue
  inspect := S.inspect
  inspectId := S.inspect

end ElementType

end LazyCollections
