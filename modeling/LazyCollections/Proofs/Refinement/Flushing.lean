import LazyCollections.Proofs.Collection.Handover
import LazyCollections.Proofs.Refinement.Tracking

/-!
# Flushing stores the contents

A flush that succeeds leaves the contents themselves stored, whichever way it takes: nothing to do,
the work of the queue, the difference from the snapshot, or everything anew. The only failure is
that of a persister that refuses, and then everything is as before.
-/

namespace LazyCollections

set_option autoImplicit false

variable {T : ElementType} {K : Scalar}
variable {d : Descriptor} {a : Attachment} {t : Trouble} {stored now : Aggregate T K}
variable {s : Setting T K Database} {env : Environment Database}

/-- A flush failed because the persister refused, which it then does no more. -/
def FailsRefused (d : Descriptor) (a : Attachment) (t : Trouble) (stored now : Aggregate T K)
    (error : Error) (s : Setting T K Database) : Prop :=
  error = .sourceUnavailable .refused ∧ t.refusing = true ∧
    Tracks d a { t with refusing := false } stored now s

theorem ChangeSet.carryOut_of_isEmpty {c : ChangeSet T.Element K.Carrier}
    (h : c.isEmpty = true) (contents : Aggregate T K) : c.carryOut contents = contents.trimmed := by
  simp only [isEmpty, Bool.and_eq_true, Bool.not_eq_true', List.isEmpty_iff] at h
  obtain ⟨⟨⟨htruncate, hdeletions⟩, hupdates⟩, hinsertions⟩ := h
  rw [carryOut, htruncate, hdeletions, hupdates, hinsertions]
  rfl

theorem Stores.of_accepted (hT : T.Lawful d.shape) (hK : K.Restores) (h : Stores d a t stored env)
    {c : ChangeSet T.Element K.Carrier} (hcarry : c.carryOut stored = now)
    (hnow : now.InOrder d.shape) {db : Database}
    (haccepted : Database.persister a.owner d c env.source = (.ok (), db)) :
    Stores d a t now { env with source := db } := by
  have hready : env.source.refuseNext = false := by
    rw [← Bool.not_eq_true]
    intro hrefuse
    rw [Database.persister_refuses hrefuse] at haccepted
    cases haccepted
  rw [Database.persister_accepts hT.toStorable hready] at haccepted
  cases haccepted
  have hid : c.FindsRows stored.shape → T.IdentifiedBy (env.source.store.identify d.role) := by
    intro hfinds
    have hshape := hfinds.ne_keyed
    rw [h.stored_inOrder.shape_eq] at hshape
    exact (h.identifies hshape).identifiedBy (hT.storableId hshape)
  exact
    { hosted := h.hosted
      holds := hcarry ▸ h.holds.apply hT.toStorable hK h.stored_inOrder.keyedById c hid
      identifies := h.identifies
      trouble := h.trouble
      stored_inOrder := hnow }

theorem Tracks.of_refused (hT : T.Lawful d.shape) (hs : Tracks d a t stored now s)
    {c : ChangeSet T.Element K.Carrier} {error : Error} {db : Database}
    (hrefused : Database.persister a.owner d c s.environment.source = (.error error, db)) :
    FailsRefused d a t stored now error ⟨s.collection, { s.environment with source := db }⟩ := by
  have hrefuse : s.environment.source.refuseNext = true := by
    rw [← Bool.not_eq_false]
    intro hready
    rw [Database.persister_accepts hT.toStorable hready] at hrefused
    cases hrefused
  rw [Database.persister_refuses hrefuse] at hrefused
  cases hrefused
  have hafter : Tracks d a
      (Database.trouble { s.environment.source with refuseNext := false }) stored now
      ⟨s.collection,
        { s.environment with source := { s.environment.source with refuseNext := false } }⟩ :=
    hs.onDatabase rfl rfl
  rw [FailsRefused, ← hs.trouble]
  exact ⟨rfl, hrefuse, hafter⟩

section Uncached

open LazyCollections.Action

theorem runOn_evictCache {session : Session Database} (hcached : session.cached = false)
    (env : Environment Database) :
    (EnvironmentAction.evictCache session d a).runOn env = (.ok (), env) := by
  have huses : EnvironmentAction.usesCache session d = false := by
    rw [EnvironmentAction.usesCache, hcached]
    rfl
  rw [EnvironmentAction.evictCache, huses]
  rfl

theorem Setting.HeldBy.flush_ensures {persister : Persister T K Database}
    {Q : FlushOutcome → Setting T K Database → Prop} {E : Error → Setting T K Database → Prop}
    (h : s.HeldBy d a)
    (hrest : s.collection.AtRest →
      ∀ later, s.environment.Records later → Q .skipped ⟨s.collection, later⟩)
    (hbusy : s.collection.stage = .initializing →
      E (.invalidOperation (.cannotFlush s.collection.role)) s)
    (hincomparable : s.collection.isLoaded = true →
      ∀ error, s.collection.diff = .error error → E error s)
    (hequal : s.collection.isLoaded = true → s.collection.equalsSnapshot = true →
      Q .clean { s with collection := { s.collection with dirty := false } })
    (hcancelled : s.collection.isLoaded = false → s.collection.queuedWork.isEmpty = true →
      Q .clean ⟨s.collection.settled, s.environment⟩)
    (hok : ∀ changes, s.HandsOver a changes → ∀ source,
      persister a.owner d changes s.environment.source = (.ok (), source) →
        ∀ later, { s.environment with source }.Records later →
          Q (.ofChanges changes) ⟨s.collection.settled, later⟩)
    (herror : ∀ changes, s.HandsOver a changes → ∀ error source,
      persister a.owner d changes s.environment.source = (.error error, source) →
        E error ⟨s.collection, { s.environment with source }⟩) :
    Ensures s (flush persister) Q E := by
  obtain ⟨session, hsession, _, hcached⟩ := h.session_eq
  have huncached {found : Session Database} {b : Attachment}
      (hfound : s.collection.session s.environment = .ok (found, b)) : found.cached = false := by
    rw [hsession] at hfound
    cases hfound
    exact hcached
  apply Ensures.flush
  · exact hrest
  · intro _ error hlost
    rw [hsession] at hlost
    cases hlost
  · exact hbusy
  · exact fun _ => hincomparable
  · exact fun _ => hequal
  · intro found b hflushes hnothing
    rw [EnvironmentAction.Ensures, runOn_evictCache (huncached hflushes.session)]
    exact hcancelled hflushes.unloaded hnothing
  · intro b changes hover
    obtain rfl : b = a := hover.attachment_unique h.attachment
    apply Ensures.flush_of_handsOver hover
    · intro source haccepted found hfound later hlater
      rw [EnvironmentAction.Ensures, runOn_evictCache (huncached hfound)]
      rw [h.descriptor] at haccepted
      exact hok changes hover source haccepted later hlater
    · intro error source hrefused
      rw [h.descriptor] at hrefused
      exact herror changes hover error source hrefused

end Uncached

namespace Tracks

theorem run (hs : Tracks d a t stored now s) (hunloaded : s.collection.isLoaded = false) :
    QueueRun stored s.collection.queue now := by
  cases hs.standsFor with
  | unloaded stage run size => exact run
  | loaded stage contents queue snapshot clean =>
    rw [Collection.isLoaded, stage] at hunloaded
    cases hunloaded

theorem loadedAs (hs : Tracks d a t stored now s) (hloaded : s.collection.isLoaded = true) :
    LoadedAs d a t stored now s := by
  cases hs.standsFor with
  | unloaded stage run size =>
    rw [Collection.isLoaded, stage] at hloaded
    cases hloaded
  | loaded stage contents queue snapshot clean => exact ⟨hs, stage, contents⟩

theorem eq_of_atRest (hs : Tracks d a t stored now s) (h : s.collection.AtRest) : now = stored := by
  rcases h with hreadOnly | ⟨hloaded, hclean⟩ | ⟨hunloaded, hqueue⟩
  · rw [hs.writable] at hreadOnly
    cases hreadOnly
  · exact (hs.loadedAs hloaded).settled.2.2 hclean
  · exact (hs.run hunloaded).eq_of_isEmpty (List.isEmpty_iff.mpr hqueue)

theorem carryOut_queuedWork (hs : Tracks d a t stored now s)
    (hunloaded : s.collection.isLoaded = false) : s.collection.queuedWork.carryOut stored = now := by
  rw [Collection.queuedWork, (hs.run hunloaded).carryOut_ofQueue,
    hs.now_inOrder.nullFree.trimmed_eq]

theorem eq_of_cancelled (hs : Tracks d a t stored now s)
    (hunloaded : s.collection.isLoaded = false)
    (hnothing : s.collection.queuedWork.isEmpty = true) : now = stored := by
  rw [← hs.carryOut_queuedWork hunloaded, ChangeSet.carryOut_of_isEmpty hnothing,
    hs.stored_inOrder.nullFree.trimmed_eq]

theorem diff_eq (hT : T.Lawful d.shape) (hs : LoadedAs d a t stored now s) :
    ∃ c, s.collection.diff = .ok c ∧ c.carryOut stored = now := by
  have hshape : stored.shape = now.shape :=
    hs.stored_inOrder.shape_eq.trans hs.now_inOrder.shape_eq.symm
  have htrimmed := hs.now_inOrder.nullFree.trimmed_eq
  rw [Collection.diff, if_pos hs.isLoaded_eq, hs.settled.2.1, hs.contents]
  split
  next =>
    obtain ⟨c, hdiff, hcarry⟩ := carryOut_diff (hs.stored_inOrder.shape_eq ▸ hT.tellsApart) hshape
      hs.stored_inOrder.keyedById hs.now_inOrder.keyedById
      s.collection.descriptor.options.orphanDelete
    exact ⟨c, hdiff, hcarry.trans htrimmed⟩
  next =>
    refine ⟨_, rfl, ?_⟩
    rw [carryOut_writeAnew hshape hs.now_inOrder.keyedById, htrimmed]

theorem eq_of_equalsSnapshot (hT : T.Lawful d.shape) (hs : LoadedAs d a t stored now s)
    (hequal : s.collection.equalsSnapshot = true) : now = stored := by
  rw [Collection.equalsSnapshot, if_pos hs.isLoaded_eq, hs.settled.2.1, hs.contents] at hequal
  split at hequal
  next =>
    exact LazyCollections.eq_of_equalsSnapshot (hs.stored_inOrder.shape_eq ▸ hT.tellsApart)
      hs.stored_inOrder.keyedById hs.now_inOrder.keyedById hequal
  next => cases hequal

theorem carryOut_eq (hT : T.Lawful d.shape) (hs : Tracks d a t stored now s)
    {changes : ChangeSet T.Element K.Carrier} (hover : s.HandsOver a changes) :
    changes.carryOut stored = now := by
  cases hover with
  | queue hflushes => exact hs.carryOut_queuedWork hflushes.unloaded
  | contents hflushes =>
    obtain ⟨c, hdiff, hcarry⟩ := diff_eq hT (hs.loadedAs hflushes.loaded)
    rw [hflushes.diff] at hdiff
    cases hdiff
    exact hcarry

theorem withoutChanges (hs : LoadedAs d a t stored stored s) :
    Tracks d a t stored stored { s with collection := { s.collection with dirty := false } } :=
  hs.toTracks.withCollection hs.descriptor hs.attachment hs.writable hs.now_inOrder
    (.loaded hs.stage hs.contents hs.settled.1 hs.settled.2.1 fun _ => rfl)

/-- Once its contents are stored, the settled collection stands for them as they are stored. -/
theorem settled (hT : T.Lawful d.shape) (hs : Tracks d a t stored now s)
    {env : Environment Database} (hstores : Stores d a t now env) :
    Tracks d a t now now ⟨s.collection.settled, env⟩ := by
  cases hloaded : s.collection.isLoaded with
  | false =>
    have hstage : s.collection.stage = .uninitialized := by
      cases hs.standsFor with
      | unloaded stage run size => exact stage
      | loaded stage contents queue snapshot clean =>
        rw [Collection.isLoaded, stage] at hloaded
        cases hloaded
    have hsize : ∀ n, none = some n → n = now.size := by
      intro n hn
      cases hn
    rw [Collection.settled_of_unloaded hloaded]
    exact
      { toStores := hstores
        descriptor := hs.descriptor
        attachment := hs.attachment
        writable := hs.writable
        standsFor := .unloaded hstage .nil hsize
        now_inOrder := hs.now_inOrder }
  | true =>
    have h := hs.loadedAs hloaded
    have hcopy : s.collection.contents.deepCopy = now := by
      rw [Aggregate.deepCopy_eq hT.faithful, h.contents]
    rw [Collection.settled_of_loaded hloaded, hcopy]
    exact
      { toStores := hstores
        descriptor := hs.descriptor
        attachment := hs.attachment
        writable := hs.writable
        standsFor := .loaded h.stage h.contents h.settled.1 rfl fun _ => rfl
        now_inOrder := hs.now_inOrder }

theorem flush_ensures (hT : T.Lawful d.shape) (hK : K.Restores)
    (hs : Tracks d a t stored now s) :
    Action.Ensures s (Action.flush Database.persister) (fun _ => Tracks d a t now now)
      (FailsRefused d a t stored now) := by
  apply hs.heldBy.flush_ensures
  · intro hrest later hlater
    obtain rfl := hs.eq_of_atRest hrest
    exact hs.withEnvironment hlater.agrees
  · intro hbusy
    cases hs.standsFor with
    | unloaded stage run size =>
      rw [stage] at hbusy
      cases hbusy
    | loaded stage contents queue snapshot clean =>
      rw [stage] at hbusy
      cases hbusy
  · intro hloaded error hincomparable
    obtain ⟨c, hdiff, _⟩ := diff_eq hT (hs.loadedAs hloaded)
    rw [hincomparable] at hdiff
    cases hdiff
  · intro hloaded hequal
    obtain rfl := eq_of_equalsSnapshot hT (hs.loadedAs hloaded) hequal
    exact withoutChanges (hs.loadedAs hloaded)
  · intro hunloaded hnothing
    obtain rfl := hs.eq_of_cancelled hunloaded hnothing
    exact hs.settled hT hs.toStores
  · intro changes hover source haccepted later hlater
    have hstores := hs.toStores.of_accepted hT hK (hs.carryOut_eq hT hover) hs.now_inOrder haccepted
    exact hs.settled hT (hstores.of_agrees hlater.agrees)
  · exact fun changes _ error source hrefused => hs.of_refused hT hrefused

end Tracks

end LazyCollections
