import LazyCollections.Element.Type
import LazyCollections.SortedMap

/-!
# Contents of collections

An aggregate holds the contents of a collection in memory: the slots of a sequence, some of which
may be null, the elements of a set under their identities, or the elements of a keyed collection
under their keys.
-/

namespace LazyCollections

set_option autoImplicit false

inductive Aggregate (T : ElementType) (K : Scalar) where
  | sequence (slots : List (Option T.Element))
  | set (items : SortedMap T.Id T.Element)
  | keyed (items : SortedMap K.Carrier T.Element)

namespace Aggregate

variable {T : ElementType} {K : Scalar}

instance [DecidableEq T.Element] : DecidableEq (Aggregate T K)
  | sequence a, sequence b => decidable_of_iff (a = b) (by simp)
  | set a, set b => decidable_of_iff (a = b) (by simp)
  | keyed a, keyed b => decidable_of_iff (a = b) (by simp)
  | sequence _, set _ | sequence _, keyed _ | set _, sequence _ | set _, keyed _
  | keyed _, sequence _ | keyed _, set _ => isFalse nofun

def empty : Shape → Aggregate T K
  | .sequence => sequence []
  | .set => set ∅
  | .keyed => keyed ∅

def shape : Aggregate T K → Shape
  | sequence _ => .sequence
  | set _ => .set
  | keyed _ => .keyed

/-- The number of slots or entries; null slots count. -/
def size : Aggregate T K → Nat
  | sequence slots => slots.length
  | set items => items.size
  | keyed items => items.size

def isEmpty (a : Aggregate T K) : Bool :=
  a.size = 0

def cleared (a : Aggregate T K) : Aggregate T K :=
  empty a.shape

/-- The elements in the order of their slots, identities or keys, without nulls. -/
def elements : Aggregate T K → List T.Element
  | sequence slots => slots.filterMap id
  | set items => items.values
  | keyed items => items.values

def deepCopy : Aggregate T K → Aggregate T K
  | sequence slots => sequence (slots.map (·.map T.deepCopy))
  | set items => set (items.mapValues T.deepCopy)
  | keyed items => keyed (items.mapValues T.deepCopy)

def asSequence : Aggregate T K → Except Error (List (Option T.Element))
  | sequence slots => .ok slots
  | other => .error (.shapeMismatch .sequence other.shape)

def asSet : Aggregate T K → Except Error (SortedMap T.Id T.Element)
  | set items => .ok items
  | other => .error (.shapeMismatch .set other.shape)

def asKeyed : Aggregate T K → Except Error (SortedMap K.Carrier T.Element)
  | keyed items => .ok items
  | other => .error (.shapeMismatch .keyed other.shape)

/-- Of several elements with one identity the last one stays. -/
def setOfElements (elements : List T.Element) : Aggregate T K :=
  set (SortedMap.ofList (elements.map fun e => (T.idOf e, e)))

/-- Of several elements with one identity the first one stays. -/
def setOfFirst (elements : List T.Element) : Aggregate T K :=
  set (elements.foldl (fun items e => items.insertIfNew (T.idOf e) e) ∅)

def keyedOfEntries (entries : List (K.Carrier × T.Element)) : Aggregate T K :=
  keyed (SortedMap.ofList entries)

def inspect : Aggregate T K → String
  | sequence slots =>
    Text.inspectCall "Sequence"
      [Text.inspectList (slots.map fun slot => Text.inspectOption (slot.map T.inspect))]
  | set items =>
    Text.inspectCall "Set"
      [Text.inspectMapping (items.entries.map fun e => (T.inspectId e.1, T.inspect e.2))]
  | keyed items =>
    Text.inspectCall "Keyed"
      [Text.inspectMapping (items.entries.map fun e => (K.inspect e.1, T.inspect e.2))]

@[simp] theorem shape_empty (s : Shape) : (empty s : Aggregate T K).shape = s := by
  cases s <;> rfl

@[simp] theorem shape_cleared (a : Aggregate T K) : a.cleared.shape = a.shape :=
  shape_empty _

@[simp] theorem shape_deepCopy (a : Aggregate T K) : a.deepCopy.shape = a.shape := by
  cases a <;> rfl

@[simp] theorem isEmpty_empty (s : Shape) : (empty s : Aggregate T K).isEmpty = true := by
  cases s <;> rfl

end Aggregate

end LazyCollections
