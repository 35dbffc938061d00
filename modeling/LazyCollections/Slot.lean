import LazyCollections.Value.Text

/-!
# Positions of elements

An element of a collection has no position, stands at an index, or stands under a key. In a stored
row the key is a value.
-/

namespace LazyCollections

set_option autoImplicit false

inductive Slot (κ : Type) where
  | unordered
  | index (i : Nat)
  | key (k : κ)
deriving DecidableEq

abbrev RowSlot := Slot Value

namespace Slot

variable {κ μ : Type}

def map (f : κ → μ) : Slot κ → Slot μ
  | unordered => unordered
  | index i => index i
  | key k => key (f k)

def inspect (inspectKey : κ → String) : Slot κ → String
  | unordered => "Unordered"
  | index i => Text.inspectCall "Index" [toString i]
  | key k => Text.inspectCall "Key" [inspectKey k]

end Slot

end LazyCollections
