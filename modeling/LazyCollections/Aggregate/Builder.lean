import LazyCollections.Aggregate.Basic

/-!
# Building contents from rows

Rows arrive one by one, each with a position and a value. An indexed row goes to its slot, and the
slots before it that have no row are null. A row of a set goes under the identity of its element,
and a row of a keyed collection under its key. Announcing the number of rows starts over.

A row that does not fit, or that has no element, leaves the builder as it was.
-/

namespace LazyCollections

set_option autoImplicit false

structure Builder (T : ElementType) (K : Scalar) where
  aggregate : Aggregate T K
  anticipated : Option Nat

namespace Builder

variable {T : ElementType} {K : Scalar}

def start (shape : Shape) : Builder T K :=
  ⟨.empty shape, none⟩

def announce (b : Builder T K) (size : Nat) : Builder T K :=
  ⟨b.aggregate.cleared, some size⟩

/-- Writes a slot, after as many null slots as it takes to reach it. -/
def writeSlot {α : Type} (slots : List (Option α)) (i : Nat) (element : Option α) :
    List (Option α) :=
  (slots ++ List.replicate (i + 1 - slots.length) none).set i element

def addRow (aggregate : Aggregate T K) (slot : RowSlot) (value : Value) :
    Except Error (Aggregate T K) :=
  match aggregate, slot with
  | .sequence slots, .index i => return .sequence (writeSlot slots i (← T.internalizeSlot value))
  | .sequence slots, .unordered => return .sequence (slots ++ [← T.internalizeSlot value])
  | .set items, .unordered =>
    if value.isNull then return .set items
    else do
      let element ← T.internalize value
      return .set (items.insert (T.idOf element) element)
  | .keyed items, .key k =>
    if value.isNull then return .keyed items
    else do
      let key ← K.fromValue k
      return .keyed (items.insert key (← T.internalize value))
  | aggregate, slot => .error (.invariantViolation (.unfitRow slot aggregate.shape))

def read (b : Builder T K) (slot : RowSlot) (value : Value) : Except Error (Builder T K) :=
  return { b with aggregate := ← addRow b.aggregate slot value }

def readAll (b : Builder T K) (rows : List (RowSlot × Value)) : Except Error (Builder T K) :=
  rows.foldlM (fun b row => b.read row.1 row.2) b

end Builder

end LazyCollections
