import LazyCollections.Region

/-!
# The cache of an environment

A region as sessions reach it: each of its operations may be made to fail before it gets to the
region.
-/

namespace LazyCollections

set_option autoImplicit false

/-- The failures that stand in for an answer of the region. -/
structure CacheFaults where
  get : Option RegionError := none
  put : Option RegionError := none
  evict : Option RegionError := none
  clear : Option RegionError := none
deriving DecidableEq

structure Cache where
  region : Region
  faults : CacheFaults := {}
deriving DecidableEq

namespace Cache

def guarded {α : Type} (fault : Option RegionError) (answer : Except RegionError α) :
    Except RegionError α :=
  match fault with
  | some error => .error error
  | none => answer

def get? (cache : Cache) (key : CollectionKey) : Except RegionError (Option (List UInt8)) :=
  guarded cache.faults.get (cache.region.get? key)

def put (cache : Cache) (key : CollectionKey) (bytes : List UInt8) : Except RegionError Cache :=
  guarded cache.faults.put do return { cache with region := ← cache.region.put key bytes }

def evict (cache : Cache) (key : CollectionKey) : Except RegionError (Bool × Cache) :=
  guarded cache.faults.evict do
    let (found, region) ← cache.region.evict key
    return (found, { cache with region })

def clear (cache : Cache) : Except RegionError Cache :=
  guarded cache.faults.clear do return { cache with region := ← cache.region.clear }

end Cache

end LazyCollections
