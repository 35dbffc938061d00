import LazyCollections.Queue.Operation

/-!
# Answers from a queue

A queue may already tell whether an element is in the collection, or what stands under a key: the
last operation that concerns the element or the key decides. In a sequence an element may occur
several times, so there only a clear is conclusive.
-/

namespace LazyCollections

set_option autoImplicit false

inductive Membership where
  | present
  | absent
  /-- The queue concerns the element without deciding about it. -/
  | unknown
deriving DecidableEq

namespace QueuedOp

variable {T : ElementType} {K : Scalar}

/-- What an operation leaves of an element, if it concerns it. -/
def leaves? (e : T.Element) : QueuedOp T.Element K.Carrier → Option Membership
  | clear => some .absent
  | add _ value => if T.same value e then some .present else none
  | remove _ value => if T.same value e then some .absent else none
  | replace _ old new =>
    if T.same new e then some .present else if T.same old e then some .absent else none

def membership? (shape : Shape) (e : T.Element) (op : QueuedOp T.Element K.Carrier) :
    Option Membership :=
  match shape, op with
  | .sequence, clear => some .absent
  | .sequence, op => (op.leaves? e).map fun _ => .unknown
  | _, op => op.leaves? e

/-- What an operation leaves under a key, if it concerns the key. -/
def entry? (k : K.Carrier) : QueuedOp T.Element K.Carrier → Option (Option T.Element)
  | clear => some none
  | add (.key j) value => if j = k then some (some value) else none
  | remove (.key j) _ => if j = k then some none else none
  | replace (.key j) _ new => if j = k then some (some new) else none
  | _ => none

end QueuedOp

variable {T : ElementType} {K : Scalar}

def queuedMembership (shape : Shape) (queue : List (QueuedOp T.Element K.Carrier))
    (e : T.Element) : Option Membership :=
  queue.reverse.findSome? fun op => op.membership? shape e

def queuedEntry (queue : List (QueuedOp T.Element K.Carrier)) (k : K.Carrier) :
    Option (Option T.Element) :=
  queue.reverse.findSome? fun op => op.entry? k

end LazyCollections
