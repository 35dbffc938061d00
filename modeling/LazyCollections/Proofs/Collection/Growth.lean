import LazyCollections.Proofs.Changes.DiffExact
import LazyCollections.Proofs.Changes.Orphans
import LazyCollections.Proofs.Collection.Handover
import LazyCollections.Proofs.Refinement.Run
import LazyCollections.Proofs.Storage.Keeping

/-!
# Collections that have grown from what is stored

A collection knows the way from what is stored to its contents: an unloaded collection has it in its
queue, and a loaded one in the difference from its snapshot. The work that a flush hands over goes
that way on the stored rows.
-/

namespace LazyCollections

set_option autoImplicit false

variable {T : ElementType} {K : Scalar}

/-- The contents `now` of a collection have grown from stored ones. What is queued to be removed
from a sequence was found there. The snapshot is what is stored, up to null slots at the end. -/
inductive Collection.GrownFrom (stored now : Aggregate T K) (c : Collection T K) : Prop
  | queued (unloaded : c.isLoaded = false) (run : QueueRun stored c.queue now)
    (found : stored.shape = .sequence → ∀ e, .remove .unordered e ∈ c.queue → T.idOf e ∈ stored.ids)
  | loaded (loaded : c.isLoaded = true) (contents : c.contents = now)
    (shape_eq : now.shape = stored.shape) (keyedById : now.KeyedById)
    (snapshot : c.snapshot = none ∧ c.descriptor.options.dirtyChecking = false ∨
      ∃ old, c.snapshot = some old ∧ old.trimmed = stored.trimmed)

namespace Collection.GrownFrom

variable {stored now : Aggregate T K} {c : Collection T K}

theorem run (h : c.GrownFrom stored now) (hunloaded : c.isLoaded = false) :
    QueueRun stored c.queue now := by
  cases h with
  | queued _ run _ => exact run
  | loaded loaded =>
    rw [hunloaded] at loaded
    cases loaded

theorem contents_eq (h : c.GrownFrom stored now) (hloaded : c.isLoaded = true) :
    c.contents = now := by
  cases h with
  | queued unloaded =>
    rw [hloaded] at unloaded
    cases unloaded
  | loaded _ contents => exact contents

theorem shape_eq (h : c.GrownFrom stored now) : now.shape = stored.shape := by
  cases h with
  | queued _ run _ => exact run.shape_eq
  | loaded _ _ shape_eq => exact shape_eq

theorem keyedById (h : c.GrownFrom stored now) (hstored : stored.KeyedById) : now.KeyedById := by
  cases h with
  | queued _ run _ => exact run.keyedById hstored
  | loaded _ _ _ keyedById => exact keyedById

/-- The queue of an unloaded collection has displaced stored elements only. -/
theorem accounts (h : c.GrownFrom stored now) (hstored : stored.KeyedById)
    (hunloaded : c.isLoaded = false) : (QueueWork.ofQueue c.queue).Accounts stored := by
  cases h with
  | queued _ run found => exact run.accounts hstored found
  | loaded loaded =>
    rw [hunloaded] at loaded
    cases loaded

theorem congr {c' : Collection T K} (h : c.GrownFrom stored now)
    (hdescriptor : c'.descriptor = c.descriptor) (hstage : c'.stage = c.stage)
    (hcontents : c'.contents = c.contents) (hsnapshot : c'.snapshot = c.snapshot)
    (hqueue : c'.queue = c.queue) : c'.GrownFrom stored now := by
  have hloaded : c'.isLoaded = c.isLoaded := by rw [isLoaded, hstage, isLoaded]
  cases h with
  | queued unloaded run found =>
    rw [← hqueue] at run found
    exact .queued (hloaded.trans unloaded) run found
  | loaded loaded contents shape_eq keyedById snapshot =>
    rw [← hsnapshot, ← hdescriptor] at snapshot
    exact .loaded (hloaded.trans loaded) (hcontents.trans contents) shape_eq keyedById snapshot

/-- The difference of a loaded collection leads from what is stored to its contents, and reports
what is gone if it knows what was stored. -/
theorem diff_spec (h : c.GrownFrom stored now) (hT : T.Lawful stored.shape)
    (hstored : stored.KeyedById) (hloaded : c.isLoaded = true) :
    ∃ changes, c.diff = .ok changes ∧ changes.carryOut stored = now.trimmed ∧
      (∀ i, i ∈ changes.orphanIds → i ∈ stored.ids ∧ i ∉ now.ids) ∧
      (c.descriptor.options.orphanDelete = true → c.descriptor.options.dirtyChecking = true →
        ∀ i, i ∈ stored.ids → i ∉ now.ids → i ∈ changes.orphanIds) := by
  cases h with
  | queued unloaded =>
    rw [hloaded] at unloaded
    cases unloaded
  | loaded _ contents hshape hnow snapshot =>
    rw [Collection.diff, if_pos hloaded, contents]
    rcases snapshot with ⟨hnone, hunchecked⟩ | ⟨old, hold, htrimmed⟩
    · rw [hnone]
      refine ⟨_, rfl, carryOut_writeAnew hshape.symm hnow,
        fun i hi => absurd hi List.not_mem_nil, fun _ hchecked => ?_⟩
      rw [hunchecked] at hchecked
      cases hchecked
    · rw [hold]
      have hids : old.ids = stored.ids := by rw [← old.ids_trimmed, htrimmed, stored.ids_trimmed]
      have holdShape : old.shape = stored.shape := by
        rw [← old.shape_trimmed, htrimmed, stored.shape_trimmed]
      have holdKeyed : old.KeyedById := by
        rw [← Aggregate.keyedById_trimmed, htrimmed, Aggregate.keyedById_trimmed]
        exact hstored
      obtain ⟨changes, hdiff, hcarry, horphans⟩ := carryOut_diff_of_trimmed_eq
        (holdShape ▸ hT.tellsApart) htrimmed.symm (holdShape.trans hshape.symm) holdKeyed hnow
        c.descriptor.options.orphanDelete
      refine ⟨changes, hdiff, hcarry, fun i hi => ?_, fun hcollects _ i hi hgone => ?_⟩
      · rw [ChangeSet.orphanIds, horphans] at hi
        split at hi
        next => rwa [mem_ids_orphans, hids] at hi
        next => cases hi
      · rw [ChangeSet.orphanIds, horphans, hcollects, if_pos rfl, mem_ids_orphans, hids]
        exact ⟨hi, hgone⟩

end Collection.GrownFrom

theorem Store.Provides.contents_eq {store : Store} {d : Descriptor} {owner : EntityId}
    {stored : Aggregate T K} (hT : T.Storable) (hK : K.Restores)
    (h : store.Provides d owner stored) : store.contents ⟨d.role, owner⟩ d.shape = .ok stored := by
  have hkeeps : Store.Keeps { store with offline := false } d owner stored :=
    h.keeps.of_rows?_eq rfl
  exact hkeeps.contents_load hT hK rfl h.keyedById h.shape_eq

theorem Store.Provides.apply {store : Store} {d : Descriptor} {owner : EntityId}
    {stored : Aggregate T K} (hT : T.Faithful d.shape) (hK : K.Restores)
    (h : store.Provides d owner stored) (changes : ChangeSet T.Element K.Carrier) :
    (store.apply d owner (changes.toRowWork T K)).Provides d owner (changes.carryOut stored) where
  keeps := by
    refine h.keeps.apply hT.toStorable hK h.keyedById changes fun hfinds => ?_
    have hshape := hfinds.ne_keyed
    rw [h.shape_eq] at hshape
    exact (h.identifies hshape).identifiedBy (hT.storableId hshape)
  identifies := h.identifies
  shape_eq := (changes.shape_carryOut stored).trans h.shape_eq
  keyedById := changes.keyedById_carryOut h.keyedById

/-- The collection of an owner has grown from what the store keeps for the owner. -/
structure Setting.GrownFrom (d : Descriptor) (a : Attachment) (stored now : Aggregate T K)
    (s : Setting T K Database) : Prop
    extends s.environment.source.store.Provides d a.owner stored where
  descriptor : s.collection.descriptor = d
  attachment : s.collection.attachment = some a
  grown : s.collection.GrownFrom stored now

namespace Setting.GrownFrom

open LazyCollections.Action

variable {d : Descriptor} {a b : Attachment} {stored now next : Aggregate T K}
variable {s : Setting T K Database} {c : Collection T K}

theorem withCollection (h : s.GrownFrom d a stored now) (hc : c.GrownFrom stored next)
    (hdescriptor : c.descriptor = s.collection.descriptor)
    (hattachment : c.attachment = s.collection.attachment) :
    Setting.GrownFrom d a stored next { s with collection := c } :=
  { h with
    descriptor := hdescriptor.trans h.descriptor
    attachment := hattachment.trans h.attachment
    grown := hc }

theorem withEnvironment (h : s.GrownFrom d a stored now) {env : Environment Database}
    (hcollections : env.source.store.collections = s.environment.source.store.collections)
    (hidentities : env.source.store.identities = s.environment.source.store.identities) :
    Setting.GrownFrom d a stored now { s with environment := env } :=
  { h with toProvides := h.toProvides.congr ⟨hcollections, hidentities⟩ }

theorem now_shape (h : s.GrownFrom d a stored now) : now.shape = d.shape :=
  h.grown.shape_eq.trans h.shape_eq

theorem role_eq (h : s.GrownFrom d a stored now) : s.collection.role = d.role := by
  rw [Collection.role, h.descriptor]

theorem logicalContents_eq (hT : T.Faithful d.shape) (hK : K.Restores)
    (h : s.GrownFrom d a stored now) : s.logicalContents = .ok now := by
  rw [Setting.logicalContents]
  cases hloaded : s.collection.isLoaded with
  | true =>
    rw [if_pos rfl, h.grown.contents_eq hloaded]
    rfl
  | false =>
    have hstored := h.contents_eq hT.toStorable hK
    rw [if_neg Bool.false_ne_true, h.attachment]
    simp only [h.role_eq, h.descriptor, hstored]
    exact (h.grown.run hloaded).replay_eq hT.isDirty_self

theorem carryOut_eq (hlawful : s.collection.isLoaded = true → T.Lawful d.shape)
    (h : s.GrownFrom d a stored now) {changes : ChangeSet T.Element K.Carrier}
    (hover : s.HandsOver b changes) :
    changes.carryOut stored = now.trimmed := by
  cases hloaded : s.collection.isLoaded with
  | false =>
    rw [hover.eq_queuedWork hloaded]
    exact (h.grown.run hloaded).carryOut_ofQueue _
  | true =>
    obtain ⟨c, hdiff, hcarry, _⟩ :=
      h.grown.diff_spec (h.shape_eq ▸ hlawful hloaded) h.keyedById hloaded
    rw [(hover.diff_of_loaded hloaded).1] at hdiff
    cases hdiff
    exact hcarry

theorem provides_persister (hT : T.Faithful d.shape) (hK : K.Restores)
    (h : s.GrownFrom d a stored now)
    (hlawful : s.collection.isLoaded = true → T.Lawful d.shape)
    {changes : ChangeSet T.Element K.Carrier} (hover : s.HandsOver b changes) {db : Database}
    (hok : Database.persister a.owner d changes s.environment.source = (.ok (), db)) :
    db.store.Provides d a.owner now.trimmed := by
  rw [Database.store_of_persister_ok hT.toStorable hok, ← h.carryOut_eq hlawful hover]
  exact h.toProvides.apply hT hK changes

/-- Once its changes are written, a collection has grown from what is stored then: an unloaded one
has nothing else, and the contents of a loaded one are its snapshot. -/
theorem settled (hT : T.Faithful d.shape) (h : s.GrownFrom d a stored now)
    {env : Environment Database} (hprovides : env.source.store.Provides d a.owner now.trimmed) :
    ∃ next : Aggregate T K, next.trimmed = now.trimmed ∧
      Setting.GrownFrom d a now.trimmed next ⟨s.collection.settled, env⟩ := by
  cases hloaded : s.collection.isLoaded with
  | false =>
    rw [Collection.settled_of_unloaded hloaded]
    exact ⟨now.trimmed, now.trimmed_trimmed,
      { toProvides := hprovides
        descriptor := h.descriptor
        attachment := h.attachment
        grown := .queued hloaded .nil nofun }⟩
  | true =>
    rw [Collection.settled_of_loaded hloaded]
    refine ⟨now, rfl,
      { toProvides := hprovides
        descriptor := h.descriptor
        attachment := h.attachment
        grown := .loaded hloaded (h.grown.contents_eq hloaded) now.shape_trimmed.symm
          (h.grown.keyedById h.keyedById) ?_ }⟩
    cases hchecked : s.collection.descriptor.options.dirtyChecking with
    | false => exact .inl ⟨rfl, rfl⟩
    | true =>
      refine .inr ⟨_, rfl, ?_⟩
      rw [h.grown.contents_eq hloaded, Aggregate.deepCopy_eq hT, Aggregate.trimmed_trimmed]

theorem withoutQueue (h : s.GrownFrom d a stored now) (hunloaded : s.collection.isLoaded = false)
    {env : Environment Database} (hprovides : env.source.store.Provides d a.owner stored) :
    Setting.GrownFrom d a stored stored ⟨s.collection.settled, env⟩ := by
  rw [Collection.settled_of_unloaded hunloaded]
  exact
    { toProvides := hprovides
      descriptor := h.descriptor
      attachment := h.attachment
      grown := .queued hunloaded .nil nofun }

/-- A queue whose changes cancel out leads back to what is stored. -/
theorem trimmed_eq_of_cancelled (h : s.GrownFrom d a stored now)
    (hunloaded : s.collection.isLoaded = false)
    (hnothing : s.collection.queuedWork.isEmpty = true) :
    now.trimmed = stored.trimmed := by
  rw [← ChangeSet.carryOut_of_isEmpty hnothing stored]
  exact ((h.grown.run hunloaded).carryOut_ofQueue _).symm

end Setting.GrownFrom

end LazyCollections
