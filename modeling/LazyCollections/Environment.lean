import LazyCollections.Cache
import LazyCollections.Session.Basic

/-!
# The surroundings of collections

Collections act in an environment of sessions, one cache region, and a source of rows with a state
of its own. An action on the environment may fail, and what it did before it failed stays done.
-/

namespace LazyCollections

set_option autoImplicit false

structure Environment (σ : Type) where
  sessions : List (Session σ) := []
  cache : Cache
  source : σ

abbrev EnvironmentAction (σ : Type) := ExceptT Error (StateM (Environment σ))

/-- The tie of a collection to the owner in whose session it is held. -/
structure Attachment where
  session : SessionId
  slot : Nat
  owner : EntityId
deriving DecidableEq

namespace Environment

variable {σ : Type}

def session? (env : Environment σ) (id : SessionId) : Option (Session σ) :=
  env.sessions[id.index]?

def onSession (env : Environment σ) (id : SessionId) (f : Session σ → Session σ) :
    Environment σ :=
  { env with sessions := env.sessions.modify id.index f }

def activeSession (env : Environment σ) (id : SessionId) : Except Error (Session σ) :=
  match env.session? id with
  | none => .error (.lifecycle (.ended id))
  | some s => do
    s.checkActive id
    return s

def isLive (env : Environment σ) (a : Attachment) : Bool :=
  (env.session? a.session).any Session.isActive

/-- Whether the session of an attachment lets changes be queued. -/
def permitsQueue (env : Environment σ) (a : Attachment) : Bool :=
  (env.session? a.session).any fun s => s.isActive && s.config.queueOperations

def markOwnerDirty (env : Environment σ) (a : Attachment) : Environment σ :=
  env.onSession a.session fun s => s.markDirty a.slot

def release (env : Environment σ) (a : Attachment) (role : Role) : Environment σ :=
  env.onSession a.session fun s => s.release a.slot role

def openSession (env : Environment σ) (config : SessionConfig) (loader : Loader σ)
    (cached : Bool) : SessionId × Environment σ :=
  (⟨env.sessions.length⟩, { env with sessions := env.sessions ++ [{ config, loader, cached }] })

def closeSession (env : Environment σ) (id : SessionId) : Environment σ :=
  env.onSession id Session.close

def inspectAttachment (env : Environment σ) (a : Attachment) : String :=
  Text.inspectRecord "OwnerContext"
    [("owner_id", a.owner.inspect), ("slot", Text.inspectCall "OwnerSlot" [toString a.slot]),
     ("unit_of_work", a.session.inspect), ("live", Text.inspectBool (env.isLive a))]

def endSession (env : Environment σ) (id : SessionId) : Environment σ :=
  env.onSession id Session.finish

end Environment

namespace EnvironmentAction

variable {σ α β : Type}

def runOn (action : EnvironmentAction σ α) (env : Environment σ) :
    Except Error α × Environment σ :=
  action.run.run env

@[simp] theorem runOn_pure (a : α) (env : Environment σ) :
    runOn (pure a) env = (.ok a, env) := rfl

@[simp] theorem runOn_throw (error : Error) (env : Environment σ) :
    runOn (throw error : EnvironmentAction σ α) env = (.error error, env) := rfl

@[simp] theorem runOn_get (env : Environment σ) : runOn get env = (.ok env, env) := rfl

@[simp] theorem runOn_modify (f : Environment σ → Environment σ) (env : Environment σ) :
    runOn (modify f) env = (.ok (), f env) := rfl

@[simp] theorem runOn_ofExcept (result : Except Error α) (env : Environment σ) :
    runOn (liftM result) env = (result, env) := by
  cases result <;> rfl

theorem runOn_bind (action : EnvironmentAction σ α) (next : α → EnvironmentAction σ β)
    (env : Environment σ) :
    runOn (action >>= next) env =
      match runOn action env with
      | (.ok a, after) => runOn (next a) after
      | (.error error, after) => (.error error, after) := by
  change (action >>= next) env = match action env with
    | (.ok a, after) => next a after
    | (.error error, after) => (.error error, after)
  simp only [bind, ExceptT.bind, ExceptT.bindCont, ExceptT.mk, StateT.bind]
  cases action env with
  | mk result after => cases result <;> rfl

def tally (id : SessionId) (count : SessionStats → SessionStats) : EnvironmentAction σ Unit :=
  modify fun env => env.onSession id fun s => { s with stats := count s.stats }

/-- The slot of an owner. An owner that is registered already keeps its slot. -/
def registerOwner (id : SessionId) (owner : EntityId) : EnvironmentAction σ Nat := do
  let s ← (← get).activeSession id
  match s.owners.findIdx? fun o => o.id = owner with
  | some slot => return slot
  | none =>
    modify fun env => env.onSession id fun s => { s with owners := s.owners ++ [⟨owner, false⟩] }
    return s.owners.length

/-- Ties the collection of an owner and a role to a session. There may be only one. -/
def attach (id : SessionId) (slot : Nat) (role : Role) : EnvironmentAction σ Attachment := do
  let s ← (← get).activeSession id
  match s.owners[slot]? with
  | none => throw (.invalidOperation (.unknownOwner slot))
  | some owner =>
    if (slot, role) ∈ s.attached then
      throw (.invalidOperation (.occupied owner.id role id))
    else
      modify fun env =>
        env.onSession id fun s => { s with attached := (slot, role) :: s.attached }
      return ⟨id, slot, owner.id⟩

/-- Asks the source, whose state may change whether it answers or fails. -/
def ask (question : σ → Except Error α × σ) : EnvironmentAction σ α := do
  let env ← get
  let (answer, source) := question env.source
  set { env with source }
  answer

end EnvironmentAction

end LazyCollections
