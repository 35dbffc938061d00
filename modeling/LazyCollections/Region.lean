import LazyCollections.Role
import LazyCollections.SortedMap

/-!
# Cache regions

A region keeps encoded collections under their keys. It may have a capacity: when a new key makes
it too large, the keys that have been in it longest are pushed out. Writing under a key that is
present changes only its bytes. A region that is offline refuses everything and changes nothing.
-/

namespace LazyCollections

set_option autoImplicit false

inductive RegionError where
  | unavailable (text : String)
  | corrupted (text : String)
  | closed
deriving DecidableEq

namespace RegionError

def kind : RegionError → String
  | unavailable _ => "Unavailable"
  | corrupted _ => "Corrupted"
  | closed => "Closed"

def message : RegionError → String
  | unavailable text => "cache region unavailable: " ++ text
  | corrupted text => "cache region corrupted: " ++ text
  | closed => "cache region is closed"

end RegionError

structure Region where
  entries : SortedMap CollectionKey (List UInt8)
  /-- The keys in the order in which they were added, the oldest first. -/
  order : List CollectionKey
  /-- How many entries there may be; none is no limit. -/
  capacity : Option Nat
  offline : Bool
deriving DecidableEq

namespace Region

def empty (capacity : Option Nat) : Region :=
  ⟨∅, [], capacity, false⟩

def size (region : Region) : Nat :=
  region.entries.size

def contains (region : Region) (key : CollectionKey) : Bool :=
  region.entries.contains key

def setOffline (region : Region) (offline : Bool) : Region :=
  { region with offline }

def checkOnline (region : Region) : Except RegionError Unit :=
  if region.offline then .error (.unavailable "region offline") else .ok ()

/-- Writes an entry and notes its key as the newest if it was not there. -/
def write (region : Region) (key : CollectionKey) (bytes : List UInt8) : Region :=
  { region with
    entries := region.entries.insert key bytes
    order := if region.contains key then region.order else region.order ++ [key] }

def pushOut (limit : Nat) :
    List CollectionKey → SortedMap CollectionKey (List UInt8) →
      List CollectionKey × SortedMap CollectionKey (List UInt8)
  | [], entries => ([], entries)
  | key :: keys, entries =>
    if limit < entries.size then pushOut limit keys (entries.erase key) else (key :: keys, entries)

def fitCapacity (region : Region) : Region :=
  match region.capacity with
  | none => region
  | some limit =>
    let (order, entries) := pushOut limit region.order region.entries
    { region with order, entries }

def get? (region : Region) (key : CollectionKey) : Except RegionError (Option (List UInt8)) := do
  region.checkOnline
  return region.entries.get? key

def put (region : Region) (key : CollectionKey) (bytes : List UInt8) :
    Except RegionError Region := do
  region.checkOnline
  if region.contains key then return region.write key bytes
  else return (region.write key bytes).fitCapacity

def evict (region : Region) (key : CollectionKey) : Except RegionError (Bool × Region) := do
  region.checkOnline
  if region.contains key then
    return (true, { region with
      entries := region.entries.erase key
      order := region.order.filter (· ≠ key) })
  else return (false, region)

def clear (region : Region) : Except RegionError Region := do
  region.checkOnline
  return { region with entries := ∅, order := [] }

/-- Writes an entry even if the region is offline or full. -/
def inject (region : Region) (key : CollectionKey) (bytes : List UInt8) : Region :=
  region.write key bytes

end Region

end LazyCollections
