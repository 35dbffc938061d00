import LazyCollections.Loader
import LazyCollections.Session.Config

/-!
# Sessions

A session is a unit of work. It has the owners that were registered with it, says which of them
have unsaved changes, and knows which of their collections are attached to it, at most one for an
owner and a role. A session that is closed or ended is of no more use to its collections.
-/

namespace LazyCollections

set_option autoImplicit false

structure SessionStats where
  collectionsLoaded : Nat := 0
  cacheHits : Nat := 0
  cacheMisses : Nat := 0
  cachePuts : Nat := 0
  cacheEvictions : Nat := 0
  probes : Nat := 0
  operationsQueued : Nat := 0
  queuesReplayed : Nat := 0
  collectionsFlushed : Nat := 0
  flushesSkipped : Nat := 0
deriving DecidableEq

def SessionStats.counters (s : SessionStats) : List (String × Nat) :=
  [("collections_loaded", s.collectionsLoaded), ("cache_hits", s.cacheHits),
   ("cache_misses", s.cacheMisses), ("cache_puts", s.cachePuts),
   ("cache_evictions", s.cacheEvictions), ("probes", s.probes),
   ("operations_queued", s.operationsQueued), ("queues_replayed", s.queuesReplayed),
   ("collections_flushed", s.collectionsFlushed), ("flushes_skipped", s.flushesSkipped)]

inductive SessionStatus where
  | active
  | closed
  /-- Closed and given up, so that nothing of it can be asked for. -/
  | ended
deriving DecidableEq

structure Owner where
  id : EntityId
  dirty : Bool
deriving DecidableEq

structure Session (σ : Type) where
  config : SessionConfig
  loader : Loader σ
  /-- Whether the session uses the cache of its environment. -/
  cached : Bool
  owners : List Owner := []
  /-- The slots of owners and the roles that have a collection. -/
  attached : List (Nat × Role) := []
  status : SessionStatus := .active
  stats : SessionStats := {}

namespace Session

variable {σ : Type}

def isActive (s : Session σ) : Bool :=
  s.status = .active

def checkActive (s : Session σ) (id : SessionId) : Except Error Unit :=
  match s.status with
  | .active => .ok ()
  | .closed => .error (.lifecycle (.closed id))
  | .ended => .error (.lifecycle (.ended id))

def close (s : Session σ) : Session σ :=
  if s.isActive then { s with status := .closed, attached := [] } else s

def finish (s : Session σ) : Session σ :=
  { s.close with status := .ended }

def markDirty (s : Session σ) (slot : Nat) : Session σ :=
  if s.status = .ended then s
  else { s with owners := s.owners.modify slot fun owner => { owner with dirty := true } }

def clearDirty (s : Session σ) (slot : Nat) : Session σ :=
  { s with owners := s.owners.modify slot fun owner => { owner with dirty := false } }

def isOwnerDirty (s : Session σ) (slot : Nat) : Bool :=
  s.owners[slot]?.any (·.dirty)

def release (s : Session σ) (slot : Nat) (role : Role) : Session σ :=
  { s with attached := s.attached.filter (· ≠ (slot, role)) }

def inspect (s : Session σ) (id : SessionId) : String :=
  Text.inspectOpenRecord "Session"
    [("id", id.inspect), ("is_open", Text.inspectBool s.isActive),
     ("owners", toString s.owners.length), ("attached", toString s.attached.length)]

end Session

end LazyCollections
