import LazyCollections.Proofs.Cache.Regions
import LazyCollections.Proofs.Storage.Delivery
import LazyCollections.Storage.Database

/-!
# Rows and entries by their keys

The cache and the store are shared by all collections, but what is kept of a collection is kept
under its key. What a collection asks of them is answered from what is under its key and from how
they work at all, which no collection changes; and only what is under its key is changed by it. A
region without a capacity pushes out nothing.
-/

namespace LazyCollections

set_option autoImplicit false

variable {T : ElementType} {K : Scalar} {α : Type}

namespace Cache

def bare (cache : Cache) : Cache :=
  { cache with region := { cache.region with entries := ∅, order := [] } }

/-- The caches work in the same way and have the same entry under the key. -/
structure Alike (key : CollectionKey) (cache cache' : Cache) : Prop where
  bare : cache'.bare = cache.bare
  entry : cache'.region.entries.get? key = cache.region.entries.get? key

/-- The later cache works in the same way and has the same entries under all other keys. -/
structure Spares (key : CollectionKey) (cache later : Cache) : Prop where
  bare : later.bare = cache.bare
  entries : ∀ other, other ≠ key → later.region.entries.get? other = cache.region.entries.get? other

variable {key : CollectionKey} {cache cache' later last : Cache}

theorem Alike.refl (cache : Cache) : cache.Alike key cache :=
  ⟨rfl, rfl⟩

theorem Spares.refl (cache : Cache) : cache.Spares key cache :=
  ⟨rfl, fun _ _ => rfl⟩

theorem Spares.trans (h : cache.Spares key later) (hlast : later.Spares key last) :
    cache.Spares key last :=
  ⟨hlast.bare.trans h.bare, fun other hother =>
    (hlast.entries other hother).trans (h.entries other hother)⟩

theorem Spares.alike (h : cache.Spares key later) {other : CollectionKey} (hother : other ≠ key) :
    cache.Alike other later :=
  ⟨h.bare, h.entries other hother⟩

theorem capacity_of_bare (h : later.bare = cache.bare) :
    later.region.capacity = cache.region.capacity := by
  have hcapacity := congrArg (fun cache => cache.region.capacity) h
  exact hcapacity

theorem faults_of_bare (h : later.bare = cache.bare) : later.faults = cache.faults := by
  have hfaults := congrArg Cache.faults h
  exact hfaults

theorem checkOnline_of_bare (h : later.bare = cache.bare) :
    later.region.checkOnline = cache.region.checkOnline := by
  have hoffline : later.region.offline = cache.region.offline :=
    congrArg (fun cache => cache.region.offline) h
  rw [Region.checkOnline, Region.checkOnline, hoffline]

theorem guarded_bind {α β : Type} (fault : Option RegionError) (answer : Except RegionError α)
    (next : α → Except RegionError β) :
    guarded fault (answer >>= next) = guarded fault answer >>= next := by
  cases fault <;> rfl

theorem get?_eq (cache : Cache) (key : CollectionKey) :
    cache.get? key = (do
      guarded cache.faults.get cache.region.checkOnline
      return cache.region.entries.get? key) :=
  guarded_bind _ _ _

theorem put_eq (h : cache.region.capacity = none) (key : CollectionKey) (bytes : List UInt8) :
    cache.put key bytes = (do
      guarded cache.faults.put cache.region.checkOnline
      return { cache with region := cache.region.write key bytes }) := by
  have hfit : (cache.region.write key bytes).fitCapacity = cache.region.write key bytes := by
    simp only [Region.fitCapacity, Region.write, h]
  rw [Cache.put, Region.put, ← guarded_bind]
  congr 1
  cases cache.region.checkOnline with
  | error error => rfl
  | ok _ => cases cache.region.contains key <;> simp [hfit]

def without (cache : Cache) (key : CollectionKey) : Cache :=
  { cache with
    region :=
      if cache.region.contains key then
        { cache.region with
          entries := cache.region.entries.erase key
          order := cache.region.order.filter (· ≠ key) }
      else cache.region }

theorem evict_eq (cache : Cache) (key : CollectionKey) :
    cache.evict key = (do
      guarded cache.faults.evict cache.region.checkOnline
      return (cache.region.contains key, cache.without key)) := by
  rw [Cache.evict, Region.evict, without]
  cases cache.faults.evict with
  | some error => rfl
  | none =>
    cases cache.region.checkOnline with
    | error error => rfl
    | ok _ => cases cache.region.contains key <;> rfl

theorem spares_write (cache : Cache) (key : CollectionKey) (bytes : List UInt8) :
    cache.Spares key { cache with region := cache.region.write key bytes } :=
  ⟨rfl, fun _ hother => SortedMap.get?_insert_of_ne _ _ hother.symm⟩

theorem spares_without (cache : Cache) (key : CollectionKey) :
    cache.Spares key (cache.without key) := by
  unfold without
  split
  next => exact ⟨rfl, fun _ hother => SortedMap.get?_erase_of_ne _ hother.symm⟩
  next => exact .refl cache

theorem get?_without (cache : Cache) (key : CollectionKey) :
    (cache.without key).region.entries.get? key = none := by
  unfold without
  split
  next => exact SortedMap.get?_erase_self _ _
  next hnone =>
    rw [← SortedMap.contains_eq_false_iff]
    simpa [Region.contains] using hnone

namespace Alike

theorem contains_eq (h : cache.Alike key cache') :
    cache'.region.contains key = cache.region.contains key := by
  rw [Region.contains, Region.contains, SortedMap.contains, SortedMap.contains, h.entry]

theorem get?_eq (h : cache.Alike key cache') : cache'.get? key = cache.get? key := by
  rw [Cache.get?_eq, Cache.get?_eq, faults_of_bare h.bare, checkOnline_of_bare h.bare, h.entry]

theorem put (h : cache.Alike key cache') (hcapacity : cache.region.capacity = none)
    (bytes : List UInt8) :
    (∃ error, cache.put key bytes = .error error ∧ cache'.put key bytes = .error error) ∨
      ∃ later later', cache.put key bytes = .ok later ∧ cache'.put key bytes = .ok later' ∧
        later.Alike key later' ∧ cache.Spares key later := by
  have hguard : guarded cache'.faults.put cache'.region.checkOnline =
      guarded cache.faults.put cache.region.checkOnline := by
    rw [faults_of_bare h.bare, checkOnline_of_bare h.bare]
  rw [put_eq hcapacity, put_eq ((capacity_of_bare h.bare).trans hcapacity), hguard]
  cases guarded cache.faults.put cache.region.checkOnline with
  | error error => exact .inl ⟨error, rfl, rfl⟩
  | ok _ =>
    refine .inr ⟨_, _, rfl, rfl, ⟨h.bare, ?_⟩, cache.spares_write key bytes⟩
    simp only [Region.write, SortedMap.get?_insert_self]

theorem evict (h : cache.Alike key cache') :
    (∃ error, cache.evict key = .error error ∧ cache'.evict key = .error error) ∨
      ∃ found later later', cache.evict key = .ok (found, later) ∧
        cache'.evict key = .ok (found, later') ∧ later.Alike key later' ∧
        cache.Spares key later := by
  rw [evict_eq, evict_eq, faults_of_bare h.bare, checkOnline_of_bare h.bare, h.contains_eq]
  cases guarded cache.faults.evict cache.region.checkOnline with
  | error error => exact .inl ⟨error, rfl, rfl⟩
  | ok _ =>
    refine .inr ⟨_, _, _, rfl, rfl, ⟨?_, ?_⟩, cache.spares_without key⟩
    · rw [(cache'.spares_without key).bare, (cache.spares_without key).bare, h.bare]
    · rw [get?_without, get?_without]

end Alike

end Cache

/-- The store without its rows and its counts. -/
def Store.bare (store : Store) : Store :=
  { store with collections := ∅, announced := [], loads := 0, probes := 0 }

namespace Store

variable {store later : Store}

theorem offline_of_bare (h : later.bare = store.bare) : later.offline = store.offline := by
  have hoffline := congrArg Store.offline h
  exact hoffline

theorem probesEnabled_of_bare (h : later.bare = store.bare) :
    later.probesEnabled = store.probesEnabled := by
  have henabled := congrArg Store.probesEnabled h
  exact henabled

theorem identify_of_bare (h : later.bare = store.bare) : later.identify = store.identify := by
  have hidentities := congrArg Store.identities h
  change later.identities = store.identities at hidentities
  funext role v
  rw [identify, identify, hidentities]

/-- The later store may have counted something, and nothing else has changed. -/
structure Counts (store later : Store) : Prop where
  bare : later.bare = store.bare
  collections : later.collections = store.collections

theorem Counts.rows?_eq (h : store.Counts later) (key : CollectionKey) :
    later.rows? key = store.rows? key := by
  rw [rows?, rows?, h.collections]

theorem counts_probe (store : Store) (key : CollectionKey) (answer : Option StoredRows → α) :
    store.Counts (probe key answer store).2 := by
  unfold probe
  split
  next => exact ⟨rfl, rfl⟩
  next => split <;> exact ⟨rfl, rfl⟩

theorem probe_congr {key : CollectionKey} (hbare : later.bare = store.bare)
    (hrows : later.rows? key = store.rows? key) (answer : Option StoredRows → α) :
    (probe key answer later).1 = (probe key answer store).1 := by
  rw [probe, probe, offline_of_bare hbare, probesEnabled_of_bare hbare, hrows]
  split
  next => rfl
  next => split <;> rfl

end Store

namespace Database

/-- The stores work in the same way and have the same rows under the key. Where changes are flushed,
the persister refuses in both or in neither. -/
structure Alike (flushes : Bool) (key : CollectionKey) (db db' : Database) : Prop where
  bare : db'.store.bare = db.store.bare
  rows : db'.store.rows? key = db.store.rows? key
  refuseNext : flushes = true → db'.refuseNext = db.refuseNext

/-- The later store works in the same way and has the same rows under all other keys. A persister
that would refuse may have done so where changes are flushed. -/
structure Spares (flushes : Bool) (key : CollectionKey) (db later : Database) : Prop where
  bare : later.store.bare = db.store.bare
  rows : ∀ other, other ≠ key → later.store.rows? other = db.store.rows? other
  refuseNext : later.refuseNext = db.refuseNext ∨ flushes = true ∧ db.refuseNext = true

variable {flushes : Bool} {key : CollectionKey} {db db' later last : Database}

theorem Alike.refl (db : Database) : db.Alike flushes key db :=
  ⟨rfl, rfl, fun _ => rfl⟩

theorem Spares.refl (db : Database) : db.Spares flushes key db :=
  ⟨rfl, fun _ _ => rfl, .inl rfl⟩

theorem Spares.trans (h : db.Spares flushes key later) (hlast : later.Spares flushes key last) :
    db.Spares flushes key last where
  bare := hlast.bare.trans h.bare
  rows other hother := (hlast.rows other hother).trans (h.rows other hother)
  refuseNext := by
    rcases h.refuseNext with hsame | hrefused
    · rw [← hsame]
      exact hlast.refuseNext
    · exact .inr hrefused

/-- The question has the same answer in databases that are alike for the key, leaves them alike, and
spares what is under other keys. -/
def Apart (flushes : Bool) (key : CollectionKey) (question : Database → α × Database) : Prop :=
  ∀ db db', db.Alike flushes key db' → ∃ answer later later', question db = (answer, later) ∧
    question db' = (answer, later') ∧ later.Alike flushes key later' ∧
    db.Spares flushes key later

theorem Apart.map {β : Type} {question : Database → α × Database}
    (h : Apart flushes key question) (f : α → β) :
    Apart flushes key fun db => (f (question db).1, (question db).2) := by
  intro db db' halike
  obtain ⟨answer, later, later', hrun, hrun', hlater⟩ := h db db' halike
  refine ⟨f answer, later, later', ?_, ?_, hlater⟩
  · simp only [hrun]
  · simp only [hrun']

theorem apart_onStore {question : Store → α × Store}
    (hanswer : ∀ store store' : Store, store'.bare = store.bare →
      store'.rows? key = store.rows? key → (question store').1 = (question store).1)
    (hcounts : ∀ store : Store, store.Counts (question store).2) :
    Apart flushes key (onStore question) := by
  intro db db' h
  have hcounted := hcounts db.store
  have hcounted' := hcounts db'.store
  have hrun (db : Database) : onStore question db =
      ((question db.store).1, { db with store := (question db.store).2 }) := rfl
  rw [hrun, hrun, hanswer _ _ h.bare h.rows]
  refine ⟨_, _, _, rfl, rfl, ⟨?_, ?_, h.refuseNext⟩,
    ⟨hcounted.bare, fun other _ => hcounted.rows?_eq other, .inl rfl⟩⟩
  · exact hcounted'.bare.trans (h.bare.trans hcounted.bare.symm)
  · exact (hcounted'.rows?_eq key).trans (h.rows.trans (hcounted.rows?_eq key).symm)

theorem apart_load (flushes : Bool) (key : CollectionKey) :
    Apart flushes key (loader.load key) := by
  change Apart flushes key (onStore (Store.load key))
  apply apart_onStore
  · intro store store' hbare hrows
    rw [Store.load, Store.load, Store.offline_of_bare hbare, hrows]
    split <;> rfl
  · intro store
    unfold Store.load
    split <;> exact ⟨rfl, rfl⟩

theorem apart_probe (flushes : Bool) (key : CollectionKey) (answer : Option StoredRows → α) :
    Apart flushes key (onStore (Store.probe key answer)) :=
  apart_onStore (fun _ _ hbare hrows => Store.probe_congr hbare hrows answer)
    fun store => store.counts_probe key answer

theorem apart_size (flushes : Bool) (key : CollectionKey) :
    Apart flushes key (loader.size key) := by
  change Apart flushes key (onStore (Store.size key))
  exact apart_probe flushes key _

theorem apart_hasElement (flushes : Bool) (key : CollectionKey) (id : Value) :
    Apart flushes key (loader.hasElement key id) := by
  change Apart flushes key (onStore (Store.hasElement key id))
  apply apart_onStore
  · intro store store' hbare hrows
    rw [Store.hasElement, Store.hasElement, Store.identify_of_bare hbare]
    exact Store.probe_congr hbare hrows _
  · exact fun store => store.counts_probe key _

theorem apart_elementAt (flushes : Bool) (key : CollectionKey) (slot : RowSlot) :
    Apart flushes key (loader.elementAt key slot) := by
  change Apart flushes key (onStore (Store.elementAt key slot))
  exact apart_probe flushes key _

theorem apart_persister (owner : EntityId) (d : Descriptor)
    (changes : ChangeSet T.Element K.Carrier) :
    Apart true ⟨d.role, owner⟩ (persister owner d changes) := by
  intro db db' h
  rw [persister, persister, h.refuseNext rfl]
  cases hrefuse : db.refuseNext with
  | true =>
    exact ⟨_, _, _, rfl, rfl, ⟨h.bare, h.rows, fun _ => rfl⟩,
      ⟨rfl, fun _ _ => rfl, .inr ⟨rfl, hrefuse⟩⟩⟩
  | false =>
    cases rowWork changes with
    | error error => exact ⟨_, _, _, rfl, rfl, h, .refl db⟩
    | ok work =>
      refine ⟨_, _, _, rfl, rfl, ⟨h.bare, ?_, fun _ => rfl⟩,
        ⟨rfl, fun other hother => Store.rows?_apply_of_ne hother, .inl hrefuse.symm⟩⟩
      simp only [Store.apply, Store.rows?_seed_self, Store.identify_of_bare h.bare, h.rows]

end Database

end LazyCollections
