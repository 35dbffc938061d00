import LazyCollections.EntityId

/-!
# Roles and the keys of collections

A role is the path of a mapped collection, such as `Order.notes`. One owner has at most one stored
collection in each role, so role and owner together are the key of a collection.
-/

namespace LazyCollections

set_option autoImplicit false

structure Role where
  path : String
deriving DecidableEq

namespace Role

instance : Ord Role := ⟨compareOn path⟩

instance : Std.TransOrd Role := inferInstanceAs (Std.TransCmp (compareOn path))

instance : Std.LawfulEqOrd Role where
  compare_self {a} := show compare a.path a.path = .eq from Std.ReflCmp.compare_self
  eq_of_compare {a b} h := by
    have := Std.LawfulEqCmp.eq_of_compare (show compare a.path b.path = .eq from h)
    cases a
    cases b
    simp_all

def inspect (role : Role) : String :=
  Text.inspectCall "Role" [Text.quoted role.path]

end Role

structure CollectionKey where
  role : Role
  owner : EntityId
deriving DecidableEq

namespace CollectionKey

/-- By role first, then by owner. -/
instance : Ord CollectionKey := ⟨compareLex (compareOn role) (compareOn owner)⟩

instance : Std.TransOrd CollectionKey :=
  inferInstanceAs (Std.TransCmp (compareLex (compareOn role) (compareOn owner)))

instance : Std.LawfulEqOrd CollectionKey where
  compare_self := Ordering.then_eq_eq.mpr ⟨Std.ReflCmp.compare_self, Std.ReflCmp.compare_self⟩
  eq_of_compare {a b} h := by
    have hlex : (compare a.role b.role).then (compare a.owner b.owner) = .eq := h
    obtain ⟨hrole, howner⟩ := Ordering.then_eq_eq.mp hlex
    have := Std.LawfulEqCmp.eq_of_compare hrole
    have := Std.LawfulEqCmp.eq_of_compare howner
    cases a
    cases b
    simp_all

def display (key : CollectionKey) : String :=
  key.role.path ++ "#" ++ key.owner.hex

end CollectionKey

end LazyCollections
