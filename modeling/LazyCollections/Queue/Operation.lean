import LazyCollections.Aggregate.Basic

/-!
# Queued operations

While a collection is not loaded its changes may be queued. A queued operation is plain data;
`QueuedOp.apply` carries it out on contents, and either succeeds or fails without an effect.
-/

namespace LazyCollections

set_option autoImplicit false

/-- A change of elements of type `ε` at keys of type `κ`. -/
inductive QueuedOp (ε κ : Type) where
  | clear
  | add (slot : Slot κ) (value : ε)
  | remove (slot : Slot κ) (value : ε)
  | replace (slot : Slot κ) (old new : ε)

namespace QueuedOp

variable {ε κ : Type}

def kind : QueuedOp ε κ → OperationKind
  | clear => .clear
  | add _ _ => .add
  | remove _ _ => .remove
  | replace _ _ _ => .replace

def added? : QueuedOp ε κ → Option ε
  | add _ value => some value
  | replace _ _ new => some new
  | clear | remove _ _ => none

def displaced? : QueuedOp ε κ → Option ε
  | remove _ value => some value
  | replace _ old _ => some old
  | clear | add _ _ => none

variable {T : ElementType} {K : Scalar}

/-- Whether a slot holds an element of the same identity. -/
def holds (T : ElementType) (e : T.Element) (slot : Option T.Element) : Bool :=
  slot.any fun found => T.same found e

def removeFirst (e : T.Element) (slots : List (Option T.Element)) : List (Option T.Element) :=
  slots.eraseP (holds T e)

/-- A replacement must find the element that it was queued for, in an unchanged state. -/
def expectOld (old : T.Element) : Option T.Element → Except Error Unit
  | none => .error (.invariantViolation (.replacesNothing (T.inspect old)))
  | some current =>
    if T.same current old && !T.isDirty current old then .ok ()
    else .error (.invariantViolation (.replacesOther (T.inspect old) (T.inspect current)))

def misplaced (kind : OperationKind) (slot : Slot K.Carrier) (length : Nat) : Error :=
  .invariantViolation (.misplaced kind (slot.inspect K.inspect) length)

def applySequence (slots : List (Option T.Element)) :
    QueuedOp T.Element K.Carrier → Except Error (List (Option T.Element))
  | clear => .ok []
  | add .unordered value => .ok (slots ++ [some value])
  | add (.index i) value =>
    if i ≤ slots.length then .ok (slots.insertIdx i (some value))
    else .error (misplaced .add (K := K) (.index i) slots.length)
  | add slot _ => .error (misplaced .add slot slots.length)
  | remove .unordered value => .ok (removeFirst value slots)
  | remove (.index i) _ =>
    if i < slots.length then .ok (slots.eraseIdx i)
    else .error (misplaced .remove (K := K) (.index i) slots.length)
  | remove slot _ => .error (misplaced .remove slot slots.length)
  | replace (.index i) old new => do
    expectOld old slots[i]?.join
    return slots.set i (some new)
  | replace _ _ _ => .error (.invariantViolation (.unfitOperation .replace .sequence))

def applySet (items : SortedMap T.Id T.Element) :
    QueuedOp T.Element K.Carrier → Except Error (SortedMap T.Id T.Element)
  | clear => .ok ∅
  | add .unordered value => .ok (items.insertIfNew (T.idOf value) value)
  | remove .unordered value => .ok (items.erase (T.idOf value))
  | replace .unordered old new => do
    expectOld old (items.get? (T.idOf old))
    return (items.erase (T.idOf old)).insert (T.idOf new) new
  | op => .error (.invariantViolation (.unfitOperation op.kind .set))

def applyKeyed (items : SortedMap K.Carrier T.Element) :
    QueuedOp T.Element K.Carrier → Except Error (SortedMap K.Carrier T.Element)
  | clear => .ok ∅
  | add (.key k) value => .ok (items.insert k value)
  | remove (.key k) _ => .ok (items.erase k)
  | replace (.key k) old new => do
    expectOld old (items.get? k)
    return items.insert k new
  | op => .error (.invariantViolation (.unfitOperation op.kind .keyed))

/-- Carries the operation out on loaded contents. An add without an index appends to a sequence,
an add to a set keeps an element that is there, and removing an absent element does nothing. -/
def apply (op : QueuedOp T.Element K.Carrier) : Aggregate T K → Except Error (Aggregate T K)
  | .sequence slots => return .sequence (← applySequence slots op)
  | .set items => return .set (← applySet items op)
  | .keyed items => return .keyed (← applyKeyed items op)

end QueuedOp

def replay {T : ElementType} {K : Scalar} (queue : List (QueuedOp T.Element K.Carrier))
    (contents : Aggregate T K) : Except Error (Aggregate T K) :=
  queue.foldlM (fun a op => op.apply a) contents

end LazyCollections
