import LazyCollections.Collection.Probing

/-!
# Lists

A list has indexed slots that may be null. Appending, removing by value and clearing are queued
while the list is not loaded; everything that needs a position loads it first.
-/

namespace LazyCollections.LazyList

set_option autoImplicit false

open LazyCollections.Action

variable {T : ElementType} {K : Scalar} {σ : Type}

def slots : Action T K σ (List (Option T.Element)) := do
  (← loadedContents).asSequence

def writableSlots : Action T K σ (List (Option T.Element)) := do
  (← writableContents).asSequence

def putSlots (slots : List (Option T.Element)) : Action T K σ Unit :=
  putContents (.sequence slots)

def position? (e : T.Element) (slots : List (Option T.Element)) : Option Nat :=
  slots.findIdx? (QueuedOp.holds T e)

def get (i : Nat) : Action T K σ (Option T.Element) := do
  let items ← slots
  match items[i]? with
  | some slot => return slot
  | none => throw (.bounds i items.length)

def indexOf (e : T.Element) : Action T K σ (Option Nat) :=
  return position? e (← slots)

def contains (e : T.Element) : Action T K σ Bool := do
  if (← collection).stage = .uninitialized then
    if let some found ← probeMembership e then return found
  return (← indexOf e).isSome

def elements : Action T K σ (List T.Element) :=
  return (← slots).filterMap id

def push (e : T.Element) : Action T K σ Unit := do
  (← collection).checkWritable
  if ← mayQueue then enqueue (.add .unordered e)
  else putSlots ((← writableSlots) ++ [some e])

/-- Appends elements one by one, up to the first that fails. -/
def extend : List T.Element → Action T K σ Unit
  | [] => return ()
  | e :: es => do
    push e
    extend es

def insert (i : Nat) (e : T.Element) : Action T K σ Unit := do
  let items ← writableSlots
  if i ≤ items.length then putSlots (items.insertIdx i (some e))
  else throw (.bounds i items.length)

def replaceSlot (i : Nat) (slot : Option T.Element) : Action T K σ (Option T.Element) := do
  let items ← writableSlots
  match items[i]? with
  | some previous =>
    putSlots (items.set i slot)
    return previous
  | none => throw (.bounds i items.length)

def set (i : Nat) (e : T.Element) : Action T K σ (Option T.Element) :=
  replaceSlot i (some e)

def setNull (i : Nat) : Action T K σ (Option T.Element) :=
  replaceSlot i none

def removeAt (i : Nat) : Action T K σ (Option T.Element) := do
  let items ← writableSlots
  match items[i]? with
  | some previous =>
    putSlots (items.eraseIdx i)
    return previous
  | none => throw (.bounds i items.length)

def removeLoaded (e : T.Element) : Action T K σ Bool := do
  let items ← writableSlots
  match position? e items with
  | none => return false
  | some i =>
    putSlots (items.eraseIdx i)
    return true

/-- Removes the first element with the identity of `e` and says whether there was one. -/
def remove (e : T.Element) : Action T K σ Bool := do
  (← collection).checkWritable
  if ← mayQueue then
    match ← probeMembership e with
    | some true =>
      enqueue (.remove .unordered e)
      return true
    | some false => return false
    | none => removeLoaded e
  else removeLoaded e

def clear : Action T K σ Unit := do
  (← collection).checkWritable
  if ← mayQueue then enqueue .clear
  else if !(← writableSlots).isEmpty then putSlots []

/-- Keeps the slots that pass the test, and notes a change if some do not. -/
def keepSlots (keep : Option T.Element → Bool) : Action T K σ Bool := do
  let items ← writableSlots
  let kept := items.filter keep
  if kept.length = items.length then return false
  else
    putSlots kept
    return true

def retain (keep : T.Element → Bool) : Action T K σ Unit := do
  let _ ← keepSlots fun slot => slot.all keep

def removeAll (es : List T.Element) : Action T K σ Bool :=
  keepSlots fun slot => slot.all fun e => !(es.map T.idOf).contains (T.idOf e)

end LazyCollections.LazyList
