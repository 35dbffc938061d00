import LazyCollections.Collection.Loading

/-!
# Writing changes

A flush decides what work a collection needs and hands it to a persister. Queued changes are
written without loading, and loaded contents are compared with the snapshot. The collection notes
that its changes are stored only after the persister has accepted them, so a refused flush can be
tried again.
-/

namespace LazyCollections

set_option autoImplicit false

/-- Writes the changes of the collection of an owner. It works on the state of the source. -/
abbrev Persister (T : ElementType) (K : Scalar) (σ : Type) :=
  EntityId → Descriptor → ChangeSet T.Element K.Carrier → σ → Except Error Unit × σ

inductive FlushOutcome where
  /-- There was nothing to look at: read-only, unchanged, or unloaded without a queue. -/
  | skipped
  /-- The changes cancel out. -/
  | clean
  | flushed (deletions updates insertions : Nat) (truncated : Bool)
deriving DecidableEq

namespace FlushOutcome

def ofChanges {ε κ : Type} (c : ChangeSet ε κ) : FlushOutcome :=
  flushed c.deletions.length c.updates.length c.insertions.length c.truncate

def wrote : FlushOutcome → Bool
  | flushed _ _ _ _ => true
  | skipped | clean => false

end FlushOutcome

namespace Action

variable {T : ElementType} {K : Scalar} {σ : Type}

def persist (persister : Persister T K σ) (a : Attachment)
    (changes : ChangeSet T.Element K.Carrier) : Action T K σ Unit := do
  let c ← collection
  onEnvironment (.ask (persister a.owner c.descriptor changes))
  onEnvironment <| .tally a.session fun n =>
    { n with collectionsFlushed := n.collectionsFlushed + 1 }

def settleQueue (s : Session σ) (a : Attachment) : Action T K σ Unit := do
  modifyCollection fun c => { c with queue := [], cachedSize := none }
  onEnvironment (.evictCache s (← collection).descriptor a)

def settleContents (s : Session σ) (a : Attachment) : Action T K σ Unit := do
  modifyCollection fun c =>
    { c with
      snapshot := if c.descriptor.options.dirtyChecking then some c.contents.deepCopy else none
      dirty := false }
  onEnvironment (.evictCache s (← collection).descriptor a)

def flushQueue (persister : Persister T K σ) : Action T K σ FlushOutcome := do
  let c ← collection
  if c.queue.isEmpty then return .skipped
  else
    let (s, a) ← activeSession
    let changes := ChangeSet.ofQueue c.queue c.descriptor.options.orphanDelete
    if changes.isEmpty && changes.orphans.isEmpty then
      settleQueue s a
      return .clean
    else
      persist persister a changes
      settleQueue s a
      return .ofChanges changes

def flushLoaded (persister : Persister T K σ) : Action T K σ FlushOutcome := do
  let c ← collection
  if !c.dirty then
    if let .ok (_, a) := c.session (← environment) then
      onEnvironment <| .tally a.session fun n => { n with flushesSkipped := n.flushesSkipped + 1 }
    return .skipped
  else if c.equalsSnapshot then
    modifyCollection fun c => { c with dirty := false }
    return .clean
  else
    let (s, a) ← activeSession
    let changes ← c.diff
    persist persister a changes
    settleContents s a
    return .ofChanges changes

/-- Writes pending changes. A read-only collection has none. -/
def flush (persister : Persister T K σ) : Action T K σ FlushOutcome := do
  let c ← collection
  if c.readOnly then return .skipped
  else
    match c.stage with
    | .initializing => throw (.invalidOperation (.cannotFlush c.role))
    | .unbound | .uninitialized => flushQueue persister
    | .initialized | .readOnlyInitialized => flushLoaded persister

end Action

end LazyCollections
