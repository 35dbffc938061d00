import LazyCollections.Collection.Probing

/-!
# Maps

A map has at most one element under each key. While it is not loaded, inserting and removing are
queued if the queue or a probe tells what stands under the key.
-/

namespace LazyCollections.LazyMap

set_option autoImplicit false

open LazyCollections.Action

variable {T : ElementType} {K : Scalar} {σ : Type}

def items : Action T K σ (SortedMap K.Carrier T.Element) := do
  (← loadedContents).asKeyed

def writableItems : Action T K σ (SortedMap K.Carrier T.Element) := do
  (← writableContents).asKeyed

def putItems (items : SortedMap K.Carrier T.Element) : Action T K σ Unit :=
  putContents (.keyed items)

def get (k : K.Carrier) : Action T K σ (Option T.Element) :=
  return (← items).get? k

def containsKey (k : K.Carrier) : Action T K σ Bool := do
  if (← collection).stage = .uninitialized then
    if let some entry ← probeKey k then return entry.isSome
  return (← items).contains k

def entries : Action T K σ (List (K.Carrier × T.Element)) :=
  return (← items).entries

def keys : Action T K σ (List K.Carrier) :=
  return (← items).keys

def values : Action T K σ (List T.Element) :=
  return (← items).values

def insertLoaded (k : K.Carrier) (e : T.Element) : Action T K σ (Option T.Element) := do
  let items ← writableItems
  putItems (items.insert k e)
  return items.get? k

/-- Puts an element under a key and gives back the one that was there. -/
def insert (k : K.Carrier) (e : T.Element) : Action T K σ (Option T.Element) := do
  (← collection).checkWritable
  if ← mayQueue then
    match ← probeKey k with
    | some none =>
      enqueue (.add (.key k) e)
      return none
    | some (some old) =>
      enqueue (.replace (.key k) old e)
      return some old
    | none => insertLoaded k e
  else insertLoaded k e

def removeLoaded (k : K.Carrier) : Action T K σ (Option T.Element) := do
  let items ← writableItems
  match items.get? k with
  | some old =>
    putItems (items.erase k)
    return some old
  | none => return none

def remove (k : K.Carrier) : Action T K σ (Option T.Element) := do
  (← collection).checkWritable
  if ← mayQueue then
    match ← probeKey k with
    | some none => return none
    | some (some old) =>
      enqueue (.remove (.key k) old)
      return some old
    | none => removeLoaded k
  else removeLoaded k

def clear : Action T K σ Unit := do
  (← collection).checkWritable
  if ← mayQueue then enqueue .clear
  else if !(← writableItems).isEmpty then putItems ∅

end LazyCollections.LazyMap
