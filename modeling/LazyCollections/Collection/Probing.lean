import LazyCollections.Collection.Loading
import LazyCollections.Queue.Answers

/-!
# Working on unloaded collections

An unloaded collection answers what it can from its queue, and in an extra-lazy role from probes of
its loader. Every probe needs an active session. An answer of none says that the collection has to
be loaded.
-/

namespace LazyCollections.Action

set_option autoImplicit false

variable {T : ElementType} {K : Scalar} {σ α : Type}

def tallyProbe (a : Attachment) : EnvironmentAction σ Unit :=
  .tally a.session fun n => { n with probes := n.probes + 1 }

/-- A known size, or the answer of a size probe, which is noted. Queued changes make both
worthless. -/
def fastSize : Action T K σ (Option Nat) := do
  let c ← collection
  if c.stage = .uninitialized && c.queue.isEmpty then
    let (s, a) ← activeSession
    if c.cachedSize.isSome || !c.descriptor.options.extraLazy then return c.cachedSize
    else
      onEnvironment (tallyProbe a)
      let size ← onEnvironment (.ask (s.loader.size ⟨c.role, a.owner⟩))
      modifyCollection fun c => { c with cachedSize := size }
      return size
  else return none

/-- Whether the collection holds an element of the identity of `e`. -/
def probeMembership (e : T.Element) : Action T K σ (Option Bool) := do
  let c ← collection
  match queuedMembership c.descriptor.shape c.queue e with
  | some .present => return some true
  | some .absent => return some false
  | some .unknown => return none
  | none =>
    if c.descriptor.options.extraLazy then
      let (s, a) ← activeSession
      let id ← T.externalizeId e
      onEnvironment (tallyProbe a)
      onEnvironment (.ask (s.loader.hasElement ⟨c.role, a.owner⟩ id))
    else return none

def probeKey (k : K.Carrier) : Action T K σ (Option (Option T.Element)) := do
  let c ← collection
  match queuedEntry c.queue k with
  | some entry => return some entry
  | none =>
    if c.descriptor.options.extraLazy then
      let (s, a) ← activeSession
      onEnvironment (tallyProbe a)
      let probe ← onEnvironment (.ask (s.loader.elementAt ⟨c.role, a.owner⟩ (.key (K.toValue k))))
      match probe with
      | none => return none
      | some .absent => return some none
      | some (.present v) => return some (← T.internalizeSlot v)
    else return none

def mayQueue : Action T K σ Bool := do
  return (← collection).mayQueue (← environment)

def enqueue (op : QueuedOp T.Element K.Carrier) : Action T K σ Unit := do
  if let some a := (← collection).attachment then
    modifyEnvironment fun env => env.markOwnerDirty a
    if (← environment).isLive a then
      onEnvironment <| .tally a.session fun n =>
        { n with operationsQueued := n.operationsQueued + 1 }
  modifyCollection fun c => { c with queue := c.queue ++ [op] }

def loadedContents : Action T K σ (Aggregate T K) := do
  ensureInitialized
  return (← collection).contents

def writableContents : Action T K σ (Aggregate T K) := do
  (← collection).checkWritable
  loadedContents

def putContents (contents : Aggregate T K) : Action T K σ Unit := do
  modifyCollection fun c => { c with contents, dirty := true }
  if let some a := (← collection).attachment then
    modifyEnvironment fun env => env.markOwnerDirty a

def size : Action T K σ Nat := do
  match ← fastSize with
  | some n => return n
  | none => return (← loadedContents).size

def isEmpty : Action T K σ Bool :=
  return (← size) = 0

end LazyCollections.Action
