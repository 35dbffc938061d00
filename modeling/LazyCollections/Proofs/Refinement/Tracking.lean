import LazyCollections.Proofs.Changes.DiffExact
import LazyCollections.Proofs.Collection.Asking

/-!
# Collections that stand for contents

A collection of a stored owner stands for contents at all times: the loaded ones, or what is stored
with its queue replayed. `Tracks` says so of a setting, with what is stored, and with what can make
the next step fail. The basic actions either keep it up, or fail because the store is offline and
change neither the contents nor what is stored.
-/

namespace LazyCollections

set_option autoImplicit false

variable {T : ElementType} {K : Scalar}

/-- What can make a step on a database fail. -/
structure Trouble where
  offline : Bool
  refusing : Bool

def Database.trouble (db : Database) : Trouble :=
  ⟨db.store.offline, db.refuseNext⟩

theorem Environment.Agrees.trouble_eq {env later : Environment Database} (h : env.Agrees later) :
    later.source.trouble = env.source.trouble := by
  rw [Database.trouble, h.store.offline, h.refuseNext]
  rfl

/-- A collection that stands for contents, given what is stored. -/
inductive Collection.StandsFor (stored now : Aggregate T K) (c : Collection T K) : Prop
  | unloaded (stage : c.stage = .uninitialized) (run : QueueRun stored c.queue now)
    (size : ∀ n, c.cachedSize = some n → n = stored.size)
  | loaded (stage : c.stage = .initialized) (contents : c.contents = now) (queue : c.queue = [])
    (snapshot : c.snapshot = if c.descriptor.options.dirtyChecking then some stored else none)
    (clean : c.dirty = false → now = stored)

/-- The database behind an environment stores contents for the owner of an attachment. -/
structure Stores (d : Descriptor) (a : Attachment) (t : Trouble) (stored : Aggregate T K)
    (env : Environment Database) : Prop where
  hosted : env.Hosts a
  holds : env.source.store.HoldsAt ⟨d.role, a.owner⟩ stored
  identifies : d.shape ≠ .keyed → env.source.store.Identifies T d.role
  trouble : env.source.trouble = t
  stored_inOrder : stored.InOrder d.shape

theorem Stores.of_agrees {d : Descriptor} {a : Attachment} {t : Trouble} {stored : Aggregate T K}
    {env later : Environment Database} (h : Stores d a t stored env) (henv : env.Agrees later) :
    Stores d a t stored later where
  hosted := henv.hosts a h.hosted
  holds := henv.store.holdsAt h.holds
  identifies hshape := henv.store.identifies (h.identifies hshape)
  trouble := henv.trouble_eq.trans h.trouble
  stored_inOrder := h.stored_inOrder

/-- The collection of an owner stands for contents, given what is stored. -/
structure Tracks (d : Descriptor) (a : Attachment) (t : Trouble) (stored now : Aggregate T K)
    (s : Setting T K Database) : Prop extends Stores d a t stored s.environment where
  descriptor : s.collection.descriptor = d
  attachment : s.collection.attachment = some a
  writable : s.collection.readOnly = false
  standsFor : s.collection.StandsFor stored now
  now_inOrder : now.InOrder d.shape

namespace Tracks

variable {d : Descriptor} {a : Attachment} {t : Trouble} {stored now next : Aggregate T K}
variable {s : Setting T K Database} {later : Environment Database} {c : Collection T K}

theorem withEnvironment (h : Tracks d a t stored now s) (henv : s.environment.Agrees later) :
    Tracks d a t stored now { s with environment := later } :=
  { h with toStores := h.toStores.of_agrees henv }

theorem withCollection (h : Tracks d a t stored now s) (hdescriptor : c.descriptor = d)
    (hattachment : c.attachment = some a) (hwritable : c.readOnly = false)
    (hnext : next.InOrder d.shape) (hc : c.StandsFor stored next) :
    Tracks d a t stored next { s with collection := c } :=
  { h with
    descriptor := hdescriptor
    attachment := hattachment
    writable := hwritable
    standsFor := hc
    now_inOrder := hnext }

theorem offline_eq (h : Tracks d a t stored now s) :
    s.environment.source.store.offline = t.offline := by
  rw [← h.trouble]
  rfl

theorem refuseNext_eq (h : Tracks d a t stored now s) :
    s.environment.source.refuseNext = t.refusing := by
  rw [← h.trouble]
  rfl

theorem onDatabase (h : Tracks d a t stored now s) {db : Database}
    (hcollections : db.store.collections = s.environment.source.store.collections)
    (hidentities : db.store.identities = s.environment.source.store.identities) :
    Tracks d a db.trouble stored now
      { s with environment := { s.environment with source := db } } := by
  have hagrees : Store.Agrees { s.environment.source.store with offline := db.store.offline }
      db.store := ⟨hcollections, hidentities, rfl⟩
  exact
    { h with
      hosted := h.hosted
      holds := hagrees.holdsAt h.holds
      identifies := fun hshape => hagrees.identifies (h.identifies hshape)
      trouble := rfl }

end Tracks

/-- A step failed because the store is offline, and changed nothing of what is tracked. -/
def FailsOffline (d : Descriptor) (a : Attachment) (t : Trouble) (stored now : Aggregate T K)
    (error : Error) (s : Setting T K Database) : Prop :=
  error = Store.offlineError ∧ t.offline = true ∧ Tracks d a t stored now s

structure LoadedAs (d : Descriptor) (a : Attachment) (t : Trouble) (stored now : Aggregate T K)
    (s : Setting T K Database) : Prop extends Tracks d a t stored now s where
  stage : s.collection.stage = .initialized
  contents : s.collection.contents = now

/-- What is loaded has no queue, knows what is stored if changes are looked for, and is that itself
until it is changed. -/
theorem LoadedAs.settled {d : Descriptor} {a : Attachment} {t : Trouble}
    {stored now : Aggregate T K} {s : Setting T K Database} (hs : LoadedAs d a t stored now s) :
    s.collection.queue = [] ∧
      s.collection.snapshot =
        (if s.collection.descriptor.options.dirtyChecking then some stored else none) ∧
      (s.collection.dirty = false → now = stored) := by
  cases hs.standsFor with
  | loaded stage contents queue snapshot clean => exact ⟨queue, snapshot, clean⟩
  | unloaded stage run size =>
    rw [hs.stage] at stage
    cases stage

theorem LoadedAs.isLoaded_eq {d : Descriptor} {a : Attachment} {t : Trouble}
    {stored now : Aggregate T K} {s : Setting T K Database} (hs : LoadedAs d a t stored now s) :
    s.collection.isLoaded = true := by
  rw [Collection.isLoaded, hs.stage]
  rfl

section Steps

open LazyCollections.Action

variable {d : Descriptor} {a : Attachment} {t : Trouble} {stored now next : Aggregate T K}
variable {s : Setting T K Database} {E : Error → Setting T K Database → Prop}

namespace Tracks

variable (hs : Tracks d a t stored now s)
include hs

theorem heldBy : s.HeldBy d a :=
  ⟨hs.hosted, hs.descriptor, hs.attachment⟩

theorem provides : s.environment.source.store.Provides d a.owner stored where
  keeps := hs.holds.keeps
  identifies := hs.identifies
  shape_eq := hs.stored_inOrder.shape_eq
  keyedById := hs.stored_inOrder.keyedById

theorem onlyAsked {s' : Setting T K Database} (hasked : s.OnlyAsked s') :
    Tracks d a t stored now s' ∧ s'.collection = s.collection := by
  obtain ⟨c, env⟩ := s'
  obtain ⟨rfl, hagrees⟩ := hasked
  exact ⟨hs.withEnvironment hagrees, rfl⟩

theorem failsOffline {s' : Setting T K Database} {error : Error} (hasked : s.OnlyAsked s')
    (hout : s.environment.source.store.OutOfReach error) : FailsOffline d a t stored now error s' :=
  ⟨hout.1, hs.trouble ▸ hout.2, (hs.onlyAsked hasked).1⟩

theorem replayOnto_eq (hT : T.Lawful d.shape) (run : QueueRun stored s.collection.queue now) :
    ∃ c, s.collection.replayOnto stored = .ok c ∧
      ∀ {env : Environment Database}, s.environment.Agrees env →
        LoadedAs d a t stored now ⟨c, env⟩ := by
  refine ⟨_, by rw [Collection.replayOnto, run.replay_eq hT.isDirty_self]; rfl, ?_⟩
  intro env hagrees
  have hstage : (if s.collection.readOnly then Stage.readOnlyInitialized else .initialized) =
      .initialized := by
    rw [hs.writable]
    rfl
  refine ⟨?_, hstage, rfl⟩
  refine (hs.withEnvironment hagrees).withCollection hs.descriptor hs.attachment hs.writable
    hs.now_inOrder (.loaded hstage rfl rfl ?_ ?_)
  · rw [Aggregate.deepCopy_eq hT.faithful]
  · intro hclean
    exact run.eq_of_isEmpty (by simpa using hclean)

theorem ensureInitialized_ensures (hT : T.Lawful d.shape) (hK : K.Restores) :
    Ensures s ensureInitialized (fun _ => LoadedAs d a t stored now)
      (FailsOffline d a t stored now) := by
  cases hs.standsFor with
  | loaded stage contents =>
    apply Ensures.collection_bind
    rw [stage]
    exact Ensures.pure ⟨hs, stage, contents⟩
  | unloaded stage run =>
    obtain ⟨session, hsession, hloader, hcached⟩ := hs.heldBy.session_eq
    obtain ⟨c, hreplay, hloaded⟩ := hs.replayOnto_eq hT run
    apply Ensures.ensureInitialized_replaying
    · intro hloaded
      rw [Collection.isLoaded, stage] at hloaded
      cases hloaded
    · exact fun _ hunable => absurd stage hunable
    · intro error hlost
      rw [hsession] at hlost
      cases hlost
    · intro found b _ hfound
      rw [hsession] at hfound
      cases hfound
      rw [hs.descriptor]
      refine (hs.provides.loadContents_ensures hT.toStorable hK hloader hcached).mono ?_ ?_
      · rintro _ env ⟨rfl, hagrees⟩
        constructor
        · intro c' hc' later hlater
          obtain rfl := Except.ok.inj (hreplay.symm.trans hc')
          exact hloaded (hagrees.trans hlater.records.agrees)
        · intro error herror
          rw [hreplay] at herror
          cases herror
      · rintro error env ⟨hagrees, hout⟩
        exact hs.failsOffline ⟨rfl, hagrees⟩ hout

theorem loadedContents_ensures (hT : T.Lawful d.shape) (hK : K.Restores) :
    Ensures s loadedContents
      (fun contents s' => contents = now ∧ LoadedAs d a t stored now s')
      (FailsOffline d a t stored now) := by
  refine Ensures.bind (hs.ensureInitialized_ensures hT hK) ?_
  intro _ s' hs'
  apply Ensures.collection_bind
  exact Ensures.pure ⟨hs'.contents, hs'⟩

theorem writableContents_ensures (hT : T.Lawful d.shape) (hK : K.Restores) :
    Ensures s writableContents
      (fun contents s' => contents = now ∧ LoadedAs d a t stored now s')
      (FailsOffline d a t stored now) := by
  apply Ensures.collection_bind
  have hwritable : s.collection.checkWritable = .ok () := by
    rw [Collection.checkWritable, hs.writable]
    rfl
  apply Ensures.ofExcept_bind hwritable
  exact hs.loadedContents_ensures hT hK

theorem putContents_ensures (hstage : s.collection.stage = .initialized)
    (hnext : next.InOrder d.shape) :
    Ensures s (putContents next) (fun _ => Tracks d a t stored next) E := by
  apply Ensures.putContents
  intro later hlater
  refine (hs.withEnvironment hlater.agrees).withCollection hs.descriptor hs.attachment hs.writable
    hnext ?_
  cases hs.standsFor with
  | loaded stage contents queue snapshot clean => exact .loaded stage rfl queue snapshot nofun
  | unloaded stage run size =>
    rw [hstage] at stage
    cases stage

theorem enqueue_ensures (hstage : s.collection.stage = .uninitialized)
    (hnext : next.InOrder d.shape) {op : QueuedOp T.Element K.Carrier}
    (hstep : QueueStep s.collection.queue now op next) :
    Ensures s (enqueue op) (fun _ => Tracks d a t stored next) E := by
  apply Ensures.enqueue
  intro later hlater
  refine (hs.withEnvironment hlater.agrees).withCollection hs.descriptor hs.attachment hs.writable
    hnext ?_
  cases hs.standsFor with
  | unloaded stage run size => exact .unloaded stage (.snoc run hstep) size
  | loaded stage contents queue snapshot clean =>
    rw [hstage] at stage
    cases stage

end Tracks

end Steps

end LazyCollections
