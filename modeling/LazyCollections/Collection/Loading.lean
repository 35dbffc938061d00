import LazyCollections.Collection.Basic

/-!
# Attaching and loading collections

A collection is loaded from the cache region of its environment if its role and its session permit
it, and otherwise from the loader of its session. Either way its queue is carried out on what was
loaded. If any of this fails the collection stays unloaded and keeps its queue.
-/

namespace LazyCollections

set_option autoImplicit false

namespace EnvironmentAction

variable {T : ElementType} {K : Scalar} {σ : Type}

def usesCache (s : Session σ) (d : Descriptor) : Bool :=
  s.cached && d.options.cacheable

def keyOf (d : Descriptor) (a : Attachment) : CollectionKey :=
  ⟨d.role, a.owner⟩

/-- The contents that the cache holds. An entry that cannot be read is evicted. -/
def readCache (s : Session σ) (d : Descriptor) (a : Attachment) :
    EnvironmentAction σ (Option (Aggregate T K)) := do
  if usesCache s d && s.config.cacheMode.reads then
    let cache := (← get).cache
    match cache.get? (keyOf d a) with
    | .error error => throw (.sourceUnavailable (.region error))
    | .ok none =>
      tally a.session fun n => { n with cacheMisses := n.cacheMisses + 1 }
      return none
    | .ok (some bytes) =>
      match CacheEntry.decode bytes >>= fun entry => entry.assemble d.shape with
      | .ok contents =>
        tally a.session fun n => { n with cacheHits := n.cacheHits + 1 }
        return some contents
      | .error _ =>
        match cache.evict (keyOf d a) with
        | .error error => throw (.sourceUnavailable (.region error))
        | .ok (_, cache) =>
          modify fun env => { env with cache }
          tally a.session fun n => { n with cacheEvictions := n.cacheEvictions + 1 }
          return none
  else return none

/-- Keeps loaded contents in the cache. Contents that cannot be encoded and a region that fails are
no reason to fail. -/
def writeCache (s : Session σ) (d : Descriptor) (a : Attachment) (contents : Aggregate T K) :
    EnvironmentAction σ Unit := do
  if usesCache s d && s.config.cacheMode.writes then
    match CacheEntry.ofAggregate contents >>= CacheEntry.encode with
    | .error _ => return ()
    | .ok bytes =>
      match (← get).cache.put (keyOf d a) bytes with
      | .error _ => return ()
      | .ok cache =>
        modify fun env => { env with cache }
        tally a.session fun n => { n with cachePuts := n.cachePuts + 1 }

/-- Drops the cache entry that a write has made stale, whatever way the session uses the cache. -/
def evictCache (s : Session σ) (d : Descriptor) (a : Attachment) : EnvironmentAction σ Unit := do
  if usesCache s d then
    match (← get).cache.evict (keyOf d a) with
    | .error error => throw (.cache error)
    | .ok (found, cache) =>
      modify fun env => { env with cache }
      if found then tally a.session fun n => { n with cacheEvictions := n.cacheEvictions + 1 }

def loadContents (s : Session σ) (d : Descriptor) (a : Attachment) :
    EnvironmentAction σ (Aggregate T K) := do
  match ← readCache s d a with
  | some contents => return contents
  | none =>
    let contents ← ask fun source =>
      let (feed, source) := s.loader.load (keyOf d a) source
      (feed.contents d.shape, source)
    tally a.session fun n => { n with collectionsLoaded := n.collectionsLoaded + 1 }
    writeCache s d a contents
    return contents

end EnvironmentAction

namespace Collection

variable {T : ElementType} {K : Scalar} {σ : Type}

def session (c : Collection T K) (env : Environment σ) : Except Error (Session σ × Attachment) :=
  match c.attachment with
  | none => .error (.lifecycle (.unattached c.role))
  | some a => do
    let s ← env.activeSession a.session
    return (s, a)

/-- An unloaded collection that has lost its session is unbound. -/
def loseSession (c : Collection T K) : Collection T K :=
  if c.stage = .uninitialized then { c with stage := .unbound } else c

/-- An unbound collection that has found a session is only unloaded. -/
def findSession (c : Collection T K) (a : Attachment) : Collection T K :=
  { c with
    attachment := some a
    stage := if c.stage = .unbound then .uninitialized else c.stage }

end Collection

namespace Action

variable {T : ElementType} {K : Scalar} {σ : Type}

def activeSession : Action T K σ (Session σ × Attachment) := do
  match (← collection).session (← environment) with
  | .ok found => return found
  | .error error =>
    modifyCollection Collection.loseSession
    throw error

def ensureInitialized : Action T K σ Unit := do
  let c ← collection
  match c.stage with
  | .initialized | .readOnlyInitialized => return ()
  | .initializing => throw (.invalidOperation (.alreadyInitializing c.role))
  | .unbound => throw (.lifecycle (.unattached c.role))
  | .uninitialized =>
    let (s, a) ← activeSession
    modifyCollection fun c => { c with stage := .initializing }
    try
      let loaded ← onEnvironment (EnvironmentAction.loadContents s c.descriptor a)
      let initialized ← c.replayOnto loaded
      modifyCollection fun _ => initialized
      if !c.queue.isEmpty then
        onEnvironment <| EnvironmentAction.tally a.session fun n =>
          { n with queuesReplayed := n.queuesReplayed + 1 }
    catch error =>
      modifyCollection fun c => { c with stage := .uninitialized }
      throw error

/-- Initializes the collection from a cache entry that the caller provides. -/
def assemble (entry : CacheEntry) : Action T K σ Unit := do
  let c ← collection
  match c.stage with
  | .uninitialized =>
    let initialized ← c.replayOnto (← entry.assemble c.descriptor.shape)
    modifyCollection fun _ => initialized
  | .unbound => throw (.lifecycle (.unattached c.role))
  | stage => throw (.invalidOperation (.cannotAssemble stage c.role))

def disassemble : Action T K σ CacheEntry := do
  ensureInitialized
  CacheEntry.ofAggregate (← collection).contents

/-- Attaches a collection that has no active session to the owner at a slot of another one. -/
def bind (session : SessionId) (slot : Nat) : Action T K σ Unit := do
  let c ← collection
  if c.isLive (← environment) then throw (.invalidOperation (.stillAttached c.role))
  let a ← onEnvironment (EnvironmentAction.attach session slot c.role)
  modifyCollection fun c => c.findSession a
  if let some previous := c.attachment then
    modifyEnvironment fun env => env.release previous c.role

/-- Detaches the collection from its session. Loaded contents stay. -/
def unbind : Action T K σ Unit := do
  let c ← collection
  if let some previous := c.attachment then
    modifyEnvironment fun env => env.release previous c.role
  modifyCollection fun c => { c.loseSession with attachment := none }

end Action

namespace EnvironmentAction

variable {T : ElementType} {K : Scalar} {σ : Type}

def expectShape (d : Descriptor) (expected : Shape) : Except Error Unit :=
  if d.shape = expected then .ok () else .error (.shapeMismatch expected d.shape)

/-- A collection of a stored owner, to be used as one of the given shape. -/
def lazyCollection (session : SessionId) (slot : Nat) (d : Descriptor) (shape : Shape) :
    EnvironmentAction σ (Collection T K) := do
  expectShape d shape
  let a ← attach session slot d.role
  let s ← (← get).activeSession session
  return .unloaded d a s.config.defaultReadOnly

/-- A new collection with the given contents. Its owner has unsaved changes if there are any. -/
def wrap (session : SessionId) (slot : Nat) (d : Descriptor) (contents : Aggregate T K) :
    EnvironmentAction σ (Collection T K) := do
  expectShape d contents.shape
  let a ← attach session slot d.role
  if !contents.isEmpty then modify fun env => env.markOwnerDirty a
  return .ofContents d a contents

def wrapList (session : SessionId) (slot : Nat) (d : Descriptor) (elements : List T.Element) :
    EnvironmentAction σ (Collection T K) :=
  wrap session slot d (.sequence (elements.map some))

def wrapSet (session : SessionId) (slot : Nat) (d : Descriptor) (elements : List T.Element) :
    EnvironmentAction σ (Collection T K) :=
  wrap session slot d (.setOfFirst elements)

def wrapMap (session : SessionId) (slot : Nat) (d : Descriptor)
    (entries : List (K.Carrier × T.Element)) : EnvironmentAction σ (Collection T K) :=
  wrap session slot d (.keyedOfEntries entries)

end EnvironmentAction

end LazyCollections
