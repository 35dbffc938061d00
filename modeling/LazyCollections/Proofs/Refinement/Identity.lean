import LazyCollections.Proofs.Collection.Handover
import LazyCollections.Proofs.Refinement.Opening

/-!
# Identities at slots

A list or a map may hold different entities at one slot before and after a change. The comparison
with the snapshot looks at the states of the two elements only, while a queued replacement says
outright what is written. So a flush of loaded contents reports the change, and stores the new
identity, exactly if the states differ as well.
-/

namespace LazyCollections

set_option autoImplicit false

variable {T : ElementType} {K : Scalar}

/-- An attached collection that may be written, by a persister that does not refuse, and what its
rows hold, in the shape of the collection. -/
structure Setting.Flushable (s : Setting T K Database) (a : Attachment) (stored : Aggregate T K) :
    Prop where
  attachment : s.collection.attachment = some a
  active : ∃ session, s.environment.session? a.session = some session ∧ session.status = .active
  writable : s.collection.readOnly = false
  ready : s.environment.source.refuseNext = false
  holds : s.environment.source.store.HoldsAt ⟨s.collection.role, a.owner⟩ stored
  shape_eq : s.collection.descriptor.shape = stored.shape

/-- The contents were loaded and changed. The snapshot is what is stored. -/
structure Setting.ChangedSince (s : Setting T K Database) (a : Attachment)
    (old new : Aggregate T K) : Prop extends s.Flushable a old where
  loaded : s.collection.isLoaded = true
  dirty : s.collection.dirty = true
  snapshot : s.collection.snapshot = some old
  contents : s.collection.contents = new

/-- Nothing was loaded, and the changes are queued. -/
structure Setting.Queues (s : Setting T K Database) (a : Attachment) (stored : Aggregate T K)
    (queue : List (QueuedOp T.Element K.Carrier)) : Prop extends s.Flushable a stored where
  stage : s.collection.stage = .uninitialized
  queue_eq : s.collection.queue = queue

/-- The identity that the store delivers for a slot after a flush, whatever the flush says. -/
def Setting.flushedIdentity? (s : Setting T K Database) (a : Attachment) (slot : Slot K.Carrier) :
    Option T.Id :=
  let after := ((Action.flush Database.persister).runOn s).2
  match after.environment.source.store.contents ⟨s.collection.role, a.owner⟩
      s.collection.descriptor.shape with
  | .ok contents => ((contents : Aggregate T K).elementAt? slot).map T.idOf
  | .error _ => none

/-- The change from one element to another at a slot is seen by the comparison, reported by the
difference, and leaves the identity of the new element stored. -/
structure ReportsChange (old new : Aggregate T K) (slot : Slot K.Carrier) (o n : T.Element) :
    Prop where
  unequal : equalsSnapshot old new = false
  update : ∀ collectOrphans, ∃ c, diff (some old) new collectOrphans = .ok c ∧
    ⟨slot, o, n⟩ ∈ c.updates
  stored : ∀ (s : Setting T K Database) (a : Attachment), s.ChangedSince a old new →
    s.flushedIdentity? a slot = some (T.idOf n)

structure MissesChange (old new : Aggregate T K) (slot : Slot K.Carrier) (n : T.Element) :
    Prop where
  update : ∀ collectOrphans, ∃ c, diff (some old) new collectOrphans = .ok c ∧
    ∀ u ∈ c.updates, u.slot ≠ slot
  stored : ∀ (s : Setting T K Database) (a : Attachment), s.ChangedSince a old new →
    s.flushedIdentity? a slot ≠ some (T.idOf n)

section Flush

open LazyCollections.Action

variable {s : Setting T K Database} {a : Attachment}

namespace Setting.Flushable

variable {stored : Aggregate T K} (h : s.Flushable a stored)
include h

theorem session_eq : ∃ session, s.collection.session s.environment = .ok (session, a) := by
  obtain ⟨session, hfound, hactive⟩ := h.active
  exact ⟨session, Collection.session_eq h.attachment hfound hactive⟩

theorem holds_flush (hT : T.Storable) (hK : K.Restores) (hstored : stored.KeyedById)
    {c : ChangeSet T.Element K.Carrier} (hover : s.HandsOver a c)
    (hslots : ¬c.FindsRows stored.shape) :
    ((flush Database.persister).runOn s).2.environment.source.store.HoldsAt
      ⟨s.collection.role, a.owner⟩ (c.carryOut stored) := by
  rw [hover.source_flush, Database.persister_accepts hT h.ready]
  exact h.holds.apply hT hK hstored c fun hfinds => absurd hfinds hslots

end Setting.Flushable

namespace Setting.ChangedSince

variable {old new : Aggregate T K} (h : s.ChangedSince a old new)
include h

theorem equalsSnapshot_eq : s.collection.equalsSnapshot = equalsSnapshot old new := by
  rw [Collection.equalsSnapshot, if_pos h.loaded, h.snapshot, h.contents]
  rfl

theorem diff_eq :
    s.collection.diff = diff (some old) new s.collection.descriptor.options.orphanDelete := by
  rw [Collection.diff, if_pos h.loaded, h.snapshot, h.contents]

theorem not_handsOver (hequal : equalsSnapshot old new = true) (b : Attachment)
    (c : ChangeSet T.Element K.Carrier) : ¬s.HandsOver b c := by
  intro hover
  have hunequal := (hover.diff_of_loaded h.loaded).2
  rw [h.equalsSnapshot_eq, hequal] at hunequal
  cases hunequal

theorem handsOver (hunequal : equalsSnapshot old new = false) {c : ChangeSet T.Element K.Carrier}
    (hdiff : diff (some old) new s.collection.descriptor.options.orphanDelete = .ok c) :
    s.HandsOver a c := by
  obtain ⟨session, hsession⟩ := h.session_eq
  exact .contents
    { writable := h.writable
      loaded := h.loaded
      dirty := h.dirty
      unequal := h.equalsSnapshot_eq.trans hunequal
      session := hsession
      diff := h.diff_eq.trans hdiff }

theorem holds_flush (hT : T.Storable) (hK : K.Restores) (hold : old.KeyedById)
    {c : ChangeSet T.Element K.Carrier}
    (hdiff : diff (some old) new s.collection.descriptor.options.orphanDelete = .ok c)
    (hslots : ¬c.FindsRows old.shape) :
    ((flush Database.persister).runOn s).2.environment.source.store.HoldsAt
      ⟨s.collection.role, a.owner⟩ (if equalsSnapshot old new then old else c.carryOut old) := by
  split
  next hequal =>
    rw [source_flush_of_not_handsOver (h.not_handsOver hequal)]
    exact h.holds
  next hunequal =>
    have hover := h.handsOver (Bool.eq_false_iff.mpr hunequal) hdiff
    exact h.toFlushable.holds_flush hT hK hold hover hslots

end Setting.ChangedSince

theorem Setting.Queues.handsOver {stored : Aggregate T K}
    {queue : List (QueuedOp T.Element K.Carrier)} (h : s.Queues a stored queue)
    (hqueued : queue ≠ [])
    (hsome : (ChangeSet.ofQueue queue s.collection.descriptor.options.orphanDelete).isEmpty =
      false) :
    s.HandsOver a (.ofQueue queue s.collection.descriptor.options.orphanDelete) := by
  obtain ⟨session, hsession⟩ := h.session_eq
  have hflushes : s.FlushesQueue session a :=
    { writable := h.writable
      ready := by rw [h.stage]; decide
      unloaded := by rw [Collection.isLoaded, h.stage]; rfl
      queued := by rwa [h.queue_eq]
      session := hsession }
  have hwork : s.collection.queuedWork =
      .ofQueue queue s.collection.descriptor.options.orphanDelete := by
    rw [Collection.queuedWork, h.queue_eq]
  rw [← hwork] at hsome ⊢
  exact .queue hflushes (by rw [hsome]; rfl)

end Flush

section Slot

variable {old new : Aggregate T K} {slot : Slot K.Carrier} {o n : T.Element}

namespace Aggregate

theorem shape_ne_set_of_elementAt? (ho : old.elementAt? slot = some o) : old.shape ≠ .set := by
  rcases elementAt?_cases ho with ⟨slots, i, rfl, _⟩ | ⟨items, k, rfl, _⟩
  · nofun
  · nofun

theorem keyedById_of_elementAt? (ho : old.elementAt? slot = some o) : old.KeyedById := by
  rcases elementAt?_cases ho with ⟨slots, i, rfl, _⟩ | ⟨items, k, rfl, _⟩
  · trivial
  · trivial

theorem shape_eq_of_elementAt? (ho : old.elementAt? slot = some o)
    (hn : new.elementAt? slot = some n) : old.shape = new.shape := by
  rcases elementAt?_cases ho with ⟨slots, i, rfl, rfl, _⟩ | ⟨items, k, rfl, rfl, _⟩
  · obtain ⟨slots', i', rfl, _⟩ | ⟨items', k', rfl, hk, _⟩ := elementAt?_cases hn
    · rfl
    · cases hk
  · obtain ⟨slots', i', rfl, hi, _⟩ | ⟨items', k', rfl, _⟩ := elementAt?_cases hn
    · cases hi
    · rfl

theorem elementAt?_writeRow (ho : old.elementAt? slot = some o) (n : T.Element) :
    (old.writeRow slot n).trimmed.elementAt? slot = some n := by
  rcases elementAt?_cases ho with ⟨slots, i, rfl, rfl, _⟩ | ⟨items, k, rfl, rfl, _⟩
  · change (dropTrailingNulls (Builder.writeSlot slots i (some n)))[i]?.join = some n
    rw [join_getElem?_dropTrailingNulls, join_getElem?_writeSlot, if_pos rfl]
  · change (items.insert k n).get? k = some n
    rw [SortedMap.get?_insert_self]

end Aggregate

variable {s : Setting T K Database} {a : Attachment}

theorem Setting.Flushable.flushedIdentity?_eq (h : s.Flushable a old) (hT : T.Storable)
    (hK : K.Restores) (ho : old.elementAt? slot = some o) {contents : Aggregate T K}
    {e : T.Element} (he : contents.elementAt? slot = some e)
    (hholds : ((Action.flush Database.persister).runOn s).2.environment.source.store.HoldsAt
      ⟨s.collection.role, a.owner⟩ contents) : s.flushedIdentity? a slot = some (T.idOf e) := by
  have hcontents := Store.contents_eq hT hK (Aggregate.keyedById_of_elementAt? he) hholds
  rw [← Aggregate.shape_eq_of_elementAt? ho he, ← h.shape_eq] at hcontents
  rw [flushedIdentity?]
  simp only [hcontents, he]
  rfl

theorem Setting.ChangedSince.flushedIdentity?_eq (h : s.ChangedSince a old new) (hT : T.Storable)
    (hK : K.Restores) (ho : old.elementAt? slot = some o) (hn : new.elementAt? slot = some n) :
    s.flushedIdentity? a slot = some (T.idOf (if T.isDirty n o then n else o)) := by
  obtain ⟨c, hdiff⟩ := exists_diff ho hn s.collection.descriptor.options.orphanDelete
  have hshape := Aggregate.shape_ne_set_of_elementAt? ho
  have hholds := h.holds_flush hT hK (Aggregate.keyedById_of_elementAt? ho) hdiff
    (not_findsRows_diff hdiff hshape)
  refine h.toFlushable.flushedIdentity?_eq hT hK ho ?_ hholds
  cases hequal : equalsSnapshot old new with
  | true =>
    rw [isDirty_of_equalsSnapshot ho hn hequal]
    exact ho
  | false =>
    have hleft := elementAt?_carryOut_diff hdiff hshape slot
    rw [ho, hn, settled] at hleft
    simp only [Bool.false_eq_true, if_false, hleft]
    split <;> rfl

/-- A queued replacement is stored whatever the states are. -/
theorem Setting.Queues.flushedIdentity?_eq (h : s.Queues a old [.replace slot o n])
    (hT : T.Storable) (hK : K.Restores) (ho : old.elementAt? slot = some o) :
    s.flushedIdentity? a slot = some (T.idOf n) := by
  have hcarry : (ChangeSet.ofQueue [.replace slot o n]
      s.collection.descriptor.options.orphanDelete).carryOut old =
        (old.writeRow slot n).trimmed := by
    cases s.collection.descriptor.options.orphanDelete <;> rfl
  have hsome : (ChangeSet.ofQueue [.replace slot o n]
      s.collection.descriptor.options.orphanDelete).isEmpty = false := by
    cases s.collection.descriptor.options.orphanDelete <;> rfl
  have hdeletions : (ChangeSet.ofQueue [.replace slot o n]
      s.collection.descriptor.options.orphanDelete).deletions = [] := by
    cases s.collection.descriptor.options.orphanDelete <;> rfl
  have hholds := h.toFlushable.holds_flush hT hK (Aggregate.keyedById_of_elementAt? ho)
    (h.handsOver (List.cons_ne_nil _ _) hsome) ?_
  · rw [hcarry] at hholds
    exact h.toFlushable.flushedIdentity?_eq hT hK ho (Aggregate.elementAt?_writeRow ho n) hholds
  · intro hfinds
    rcases hfinds with hset | ⟨_, d, hd, _⟩
    · exact Aggregate.shape_ne_set_of_elementAt? ho hset
    · rw [hdeletions] at hd
      cases hd

theorem reportsChange_of_isDirty (hT : T.Storable) (hK : K.Restores)
    (ho : old.elementAt? slot = some o) (hn : new.elementAt? slot = some n)
    (hdirty : T.isDirty n o = true) : ReportsChange old new slot o n where
  unequal := by
    cases hequal : equalsSnapshot old new with
    | false => rfl
    | true =>
      rw [isDirty_of_equalsSnapshot ho hn hequal] at hdirty
      cases hdirty
  update collectOrphans := by
    obtain ⟨c, hdiff⟩ := exists_diff ho hn collectOrphans
    exact ⟨c, hdiff, (mem_diff_updates hdiff).mpr ⟨ho, hn, hdirty⟩⟩
  stored s a h := by
    rw [h.flushedIdentity?_eq hT hK ho hn, if_pos hdirty]

theorem missesChange_of_not_isDirty (hT : T.Storable) (hK : K.Restores)
    (ho : old.elementAt? slot = some o) (hn : new.elementAt? slot = some n)
    (hne : T.idOf o ≠ T.idOf n) (hclean : T.isDirty n o = false) :
    MissesChange old new slot n where
  update collectOrphans := by
    obtain ⟨c, hdiff⟩ := exists_diff ho hn collectOrphans
    refine ⟨c, hdiff, ?_⟩
    intro u hu hslot
    obtain ⟨huo, hun, hudirty⟩ := (mem_diff_updates hdiff).mp hu
    rw [hslot, ho] at huo
    rw [hslot, hn] at hun
    cases huo
    cases hun
    rw [hclean] at hudirty
    cases hudirty
  stored s a h := by
    rw [h.flushedIdentity?_eq hT hK ho hn, hclean]
    intro hsame
    exact hne (Option.some.inj hsame)

/-- Of two entities at one slot, a flush reports and stores the new one exactly if its state is not
that of the old one. Otherwise it misses the change. A queued replacement by the new one is stored
either way. -/
theorem reportsChange_iff_isDirty (hT : T.Storable) (hK : K.Restores)
    (ho : old.elementAt? slot = some o) (hn : new.elementAt? slot = some n)
    (hne : T.idOf o ≠ T.idOf n) :
    (ReportsChange old new slot o n ↔ T.isDirty n o = true) ∧
      (MissesChange old new slot n ↔ T.isDirty n o = false) ∧
      ∀ (s : Setting T K Database) (a : Attachment), s.Queues a old [.replace slot o n] →
        s.flushedIdentity? a slot = some (T.idOf n) := by
  refine ⟨⟨?_, reportsChange_of_isDirty hT hK ho hn⟩,
    ⟨?_, missesChange_of_not_isDirty hT hK ho hn hne⟩,
    fun s a h => h.flushedIdentity?_eq hT hK ho⟩
  · intro hreports
    obtain ⟨c, hdiff, hmem⟩ := hreports.update false
    exact ((mem_diff_updates hdiff).mp hmem).2.2
  · intro hmisses
    obtain ⟨c, hdiff, hnone⟩ := hmisses.update false
    rw [← Bool.not_eq_true]
    intro hdirty
    have hmem : ⟨slot, o, n⟩ ∈ c.updates := (mem_diff_updates hdiff).mpr ⟨ho, hn, hdirty⟩
    exact hnone _ hmem rfl

/-- A loaded list of parts in which the part that is stored has been replaced by a later version of
another one. -/
def Collection.revisedParts : Collection Part.elementType .unkeyed :=
  { Collection.unloaded ⟨⟨"Order.parts"⟩, .sequence, {}⟩ ⟨⟨0⟩, 0, .filled 0⟩ false with
    stage := .initialized
    contents := .sequence [some ⟨.filled 2, "bolt", 2⟩]
    snapshot := some (.sequence [some ⟨.filled 1, "bolt", 1⟩])
    dirty := true }

theorem Setting.changedSince_revisedParts {store : Store}
    (hseed : Store.seedElements Part.elementType {} ⟨⟨"Order.parts"⟩, .sequence, {}⟩ (.filled 0)
      [⟨.filled 1, "bolt", 1⟩] = .ok store) :
    Setting.ChangedSince ⟨.revisedParts, .serving store (.filled 0)⟩ ⟨⟨0⟩, 0, .filled 0⟩
      (.sequence [some ⟨.filled 1, "bolt", 1⟩]) (.sequence [some ⟨.filled 2, "bolt", 2⟩]) where
  attachment := rfl
  active := ⟨_, rfl, rfl⟩
  writable := rfl
  ready := rfl
  holds := (Store.storesElements_of_seedElements hseed).holdsAt_sequence
    Part.lawful_set.toStorable rfl
  shape_eq := rfl
  loaded := rfl
  dirty := rfl
  snapshot := rfl
  contents := rfl

theorem reportsChange_revised_part :
    ReportsChange (T := Part.elementType) (K := .unkeyed)
        (.sequence [some ⟨.filled 1, "bolt", 1⟩]) (.sequence [some ⟨.filled 2, "bolt", 2⟩])
        (.index 0) ⟨.filled 1, "bolt", 1⟩ ⟨.filled 2, "bolt", 2⟩ ∧
      ∃ (s : Setting Part.elementType .unkeyed Database) (a : Attachment),
        s.ChangedSince a (.sequence [some ⟨.filled 1, "bolt", 1⟩])
          (.sequence [some ⟨.filled 2, "bolt", 2⟩]) ∧
        s.flushedIdentity? a (.index 0) = some (.filled 2) := by
  have hreports : ReportsChange (T := Part.elementType) (K := .unkeyed)
      (.sequence [some ⟨.filled 1, "bolt", 1⟩]) (.sequence [some ⟨.filled 2, "bolt", 2⟩])
      (.index 0) ⟨.filled 1, "bolt", 1⟩ ⟨.filled 2, "bolt", 2⟩ :=
    (reportsChange_iff_isDirty Part.lawful_set.toStorable Scalar.restores_unkeyed rfl rfl
      (by decide)).1.mpr rfl
  obtain ⟨store, hseed⟩ : ∃ store,
      Store.seedElements Part.elementType {} ⟨⟨"Order.parts"⟩, .sequence, {}⟩ (.filled 0)
        [⟨.filled 1, "bolt", 1⟩] = .ok store := ⟨_, rfl⟩
  have hchanged := Setting.changedSince_revisedParts hseed
  exact ⟨hreports, _, _, hchanged, hreports.stored _ _ hchanged⟩

/-- Parts of one identity differ in their states, but a part that is replaced by another one of the
same name and version goes unreported. -/
theorem Part.identity_unreported :
    (∀ a b : Part, Part.elementType.idOf a = Part.elementType.idOf b →
        Part.elementType.isDirty a b = false → a = b) ∧
      Part.elementType.idOf ⟨.filled 1, "bolt", 1⟩ ≠
        Part.elementType.idOf ⟨.filled 2, "bolt", 1⟩ ∧
      equalsSnapshot (T := Part.elementType) (K := .unkeyed)
        (.sequence [some ⟨.filled 1, "bolt", 1⟩])
        (.sequence [some ⟨.filled 2, "bolt", 1⟩]) = true ∧
      diff (T := Part.elementType) (K := .unkeyed)
        (some (.sequence [some ⟨.filled 1, "bolt", 1⟩]))
        (.sequence [some ⟨.filled 2, "bolt", 1⟩]) false = .ok {} :=
  ⟨fun _ _ => Part.eq_of_not_isDirty, by decide, rfl, rfl⟩

end Slot

end LazyCollections
