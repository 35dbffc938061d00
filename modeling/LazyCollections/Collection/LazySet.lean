import LazyCollections.Collection.Probing

/-!
# Sets

A set has at most one element of each identity. While it is not loaded, inserting and removing are
queued if the queue or a probe tells whether the element is there.
-/

namespace LazyCollections.LazySet

set_option autoImplicit false

open LazyCollections.Action

variable {T : ElementType} {K : Scalar} {σ : Type}

def items : Action T K σ (SortedMap T.Id T.Element) := do
  (← loadedContents).asSet

def writableItems : Action T K σ (SortedMap T.Id T.Element) := do
  (← writableContents).asSet

def putItems (items : SortedMap T.Id T.Element) : Action T K σ Unit :=
  putContents (.set items)

def contains (e : T.Element) : Action T K σ Bool := do
  if (← collection).stage = .uninitialized then
    if let some found ← probeMembership e then return found
  return (← items).contains (T.idOf e)

def get (id : T.Id) : Action T K σ (Option T.Element) :=
  return (← items).get? id

def elements : Action T K σ (List T.Element) :=
  return (← items).values

def insertLoaded (e : T.Element) : Action T K σ Bool := do
  let items ← writableItems
  if items.contains (T.idOf e) then return false
  else
    putItems (items.insert (T.idOf e) e)
    return true

/-- Adds an element unless one of its identity is there, and says whether it was added. -/
def insert (e : T.Element) : Action T K σ Bool := do
  (← collection).checkWritable
  if ← mayQueue then
    match ← probeMembership e with
    | some true => return false
    | some false =>
      enqueue (.add .unordered e)
      return true
    | none => insertLoaded e
  else insertLoaded e

def removeLoaded (e : T.Element) : Action T K σ Bool := do
  let items ← writableItems
  if items.contains (T.idOf e) then
    putItems (items.erase (T.idOf e))
    return true
  else return false

def remove (e : T.Element) : Action T K σ Bool := do
  (← collection).checkWritable
  if ← mayQueue then
    match ← probeMembership e with
    | some true =>
      enqueue (.remove .unordered e)
      return true
    | some false => return false
    | none => removeLoaded e
  else removeLoaded e

def clear : Action T K σ Unit := do
  (← collection).checkWritable
  if ← mayQueue then enqueue .clear
  else if !(← writableItems).isEmpty then putItems ∅

def retain (keep : T.Element → Bool) : Action T K σ Unit := do
  let items ← writableItems
  let kept := items.filterValues keep
  if kept.size ≠ items.size then putItems kept

end LazyCollections.LazySet
