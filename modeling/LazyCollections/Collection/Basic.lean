import LazyCollections.CacheEntry
import LazyCollections.Changes.Diff
import LazyCollections.Changes.OfQueue
import LazyCollections.Descriptor
import LazyCollections.Environment

/-!
# Collections

A collection knows what is stored of it only once it is loaded. Until then it may queue changes and
may know its size. Afterwards it has its contents, a copy of what is stored, the snapshot, and
whether the contents were changed.

An action of a collection works on the collection and its environment, the two making up a
`Setting`. It may fail, and what it did before it failed stays done.
-/

namespace LazyCollections

set_option autoImplicit false

structure Collection (T : ElementType) (K : Scalar) where
  descriptor : Descriptor
  attachment : Option Attachment
  stage : Stage
  contents : Aggregate T K
  snapshot : Option (Aggregate T K)
  dirty : Bool
  cachedSize : Option Nat
  queue : List (QueuedOp T.Element K.Carrier)
  readOnly : Bool

structure Setting (T : ElementType) (K : Scalar) (σ : Type) where
  collection : Collection T K
  environment : Environment σ

abbrev Action (T : ElementType) (K : Scalar) (σ : Type) := ExceptT Error (StateM (Setting T K σ))

namespace Collection

variable {T : ElementType} {K : Scalar} {σ : Type}

def unloaded (descriptor : Descriptor) (a : Attachment) (readOnly : Bool) : Collection T K where
  descriptor
  attachment := some a
  stage := .uninitialized
  contents := .empty descriptor.shape
  snapshot := none
  dirty := false
  cachedSize := none
  queue := []
  readOnly

/-- A new collection. Nothing of it is stored, so its snapshot is empty. -/
def ofContents (descriptor : Descriptor) (a : Attachment) (contents : Aggregate T K) :
    Collection T K where
  descriptor
  attachment := some a
  stage := .initialized
  contents
  snapshot := if descriptor.options.dirtyChecking then some (.empty descriptor.shape) else none
  dirty := !contents.isEmpty
  cachedSize := none
  queue := []
  readOnly := false

def role (c : Collection T K) : Role :=
  c.descriptor.role

def isLoaded (c : Collection T K) : Bool :=
  c.stage.isLoaded

def isLive (c : Collection T K) (env : Environment σ) : Bool :=
  c.attachment.any env.isLive

/-- Whether the contents are what is stored. An unloaded collection has changes iff some are
queued, and a loaded one without a snapshot always counts as changed. -/
def equalsSnapshot (c : Collection T K) : Bool :=
  if c.isLoaded then c.snapshot.any fun s => LazyCollections.equalsSnapshot s c.contents
  else c.queue.isEmpty

def diff (c : Collection T K) : Except Error (ChangeSet T.Element K.Carrier) :=
  if c.isLoaded then
    LazyCollections.diff c.snapshot c.contents c.descriptor.options.orphanDelete
  else .error (.invalidOperation (.cannotCompare c.role))

def orphans (c : Collection T K) : List T.Element :=
  match c.snapshot with
  | some s => if c.isLoaded then LazyCollections.orphans s c.contents else []
  | none => []

def queuedAdditions (c : Collection T K) : List T.Element :=
  c.queue.filterMap QueuedOp.added?

/-- The stored elements that queued operations displace for good. -/
def queuedOrphans (c : Collection T K) : List T.Element :=
  (ChangeSet.ofQueue c.queue true).orphans

def setCachedSize (c : Collection T K) (size : Nat) : Collection T K :=
  if c.isLoaded then c else { c with cachedSize := some size }

def setReadOnly (c : Collection T K) (readOnly : Bool) : Collection T K :=
  { c with
    readOnly
    stage :=
      match c.stage, readOnly with
      | .initialized, true => .readOnlyInitialized
      | .readOnlyInitialized, false => .initialized
      | stage, _ => stage }

def checkWritable (c : Collection T K) : Except Error Unit :=
  if c.readOnly then .error (.invalidOperation (.readOnly c.role)) else .ok ()

/-- Whether the next change may be queued instead of loading the collection. -/
def mayQueue (c : Collection T K) (env : Environment σ) : Bool :=
  c.stage = .uninitialized && !c.readOnly && c.descriptor.options.queueOperations &&
    c.attachment.any env.permitsQueue

/-- The contents before the queue, as loaded, become the snapshot; the queue is carried out on
them. -/
def replayOnto (c : Collection T K) (loaded : Aggregate T K) : Except Error (Collection T K) := do
  let contents ← replay c.queue loaded
  return { c with
    contents
    snapshot := if c.descriptor.options.dirtyChecking then some loaded.deepCopy else none
    dirty := !c.queue.isEmpty
    queue := []
    cachedSize := none
    stage := if c.readOnly then .readOnlyInitialized else .initialized }

def inspect (c : Collection T K) : String :=
  Text.inspectOpenRecord "CollectionCore"
    [("role", c.role.inspect), ("state", c.stage.inspect), ("dirty", Text.inspectBool c.dirty),
     ("queued", toString c.queue.length), ("read_only", Text.inspectBool c.readOnly)]

end Collection

namespace Action

variable {T : ElementType} {K : Scalar} {σ α β : Type}

def collection : Action T K σ (Collection T K) :=
  return (← get).collection

def environment : Action T K σ (Environment σ) :=
  return (← get).environment

def modifyCollection (f : Collection T K → Collection T K) : Action T K σ Unit :=
  modify fun s => { s with collection := f s.collection }

def modifyEnvironment (f : Environment σ → Environment σ) : Action T K σ Unit :=
  modify fun s => { s with environment := f s.environment }

/-- An action on the environment that leaves the collection alone. -/
def onEnvironment (action : EnvironmentAction σ α) : Action T K σ α := do
  let s ← get
  let (result, environment) := action.runOn s.environment
  set { s with environment }
  result

def runOn (action : Action T K σ α) (s : Setting T K σ) : Except Error α × Setting T K σ :=
  action.run.run s

@[simp] theorem runOn_pure (a : α) (s : Setting T K σ) :
    runOn (pure a) s = (.ok a, s) := rfl

@[simp] theorem runOn_throw (error : Error) (s : Setting T K σ) :
    runOn (throw error : Action T K σ α) s = (.error error, s) := rfl

@[simp] theorem runOn_ofExcept (result : Except Error α) (s : Setting T K σ) :
    runOn (liftM result) s = (result, s) := by
  cases result <;> rfl

@[simp] theorem runOn_get (s : Setting T K σ) :
    runOn (get : Action T K σ (Setting T K σ)) s = (.ok s, s) := rfl

@[simp] theorem runOn_set (next s : Setting T K σ) :
    runOn (set next : Action T K σ PUnit) s = (.ok (), next) := rfl

@[simp] theorem runOn_collection (s : Setting T K σ) :
    runOn collection s = (.ok s.collection, s) := rfl

@[simp] theorem runOn_environment (s : Setting T K σ) :
    runOn environment s = (.ok s.environment, s) := rfl

@[simp] theorem runOn_modifyCollection (f : Collection T K → Collection T K)
    (s : Setting T K σ) :
    runOn (modifyCollection f) s = (.ok (), { s with collection := f s.collection }) := rfl

@[simp] theorem runOn_modifyEnvironment (f : Environment σ → Environment σ)
    (s : Setting T K σ) :
    runOn (modifyEnvironment f) s = (.ok (), { s with environment := f s.environment }) := rfl

theorem runOn_bind (action : Action T K σ α) (next : α → Action T K σ β) (s : Setting T K σ) :
    runOn (action >>= next) s =
      match runOn action s with
      | (.ok a, after) => runOn (next a) after
      | (.error error, after) => (.error error, after) := by
  change (action >>= next) s = match action s with
    | (.ok a, after) => next a after
    | (.error error, after) => (.error error, after)
  simp only [bind, ExceptT.bind, ExceptT.bindCont, ExceptT.mk, StateT.bind]
  cases action s with
  | mk result after => cases result <;> rfl

theorem runOn_tryCatch (action : Action T K σ α) (handle : Error → Action T K σ α)
    (s : Setting T K σ) :
    runOn (tryCatch action handle) s =
      match runOn action s with
      | (.ok a, after) => (.ok a, after)
      | (.error error, after) => runOn (handle error) after := by
  change ExceptT.tryCatch action handle s = match action s with
    | (.ok a, after) => (.ok a, after)
    | (.error error, after) => handle error after
  simp only [ExceptT.tryCatch, ExceptT.mk, bind, StateT.bind]
  cases action s with
  | mk result after => cases result <;> rfl

@[simp] theorem runOn_onEnvironment (action : EnvironmentAction σ α) (s : Setting T K σ) :
    runOn (onEnvironment action : Action T K σ α) s =
      ((action.runOn s.environment).1,
        { s with environment := (action.runOn s.environment).2 }) := by
  simp [onEnvironment, runOn_bind]

end Action

end LazyCollections
