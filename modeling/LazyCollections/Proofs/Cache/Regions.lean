import LazyCollections.Cache
import LazyCollections.Proofs.Except
import LazyCollections.Proofs.SortedMap.Folds

/-!
# Entries of a region

Writing an entry changes what is under its key, and may push out others to make room. Evicting
removes what is under a key. No other entry appears or changes.
-/

namespace LazyCollections

set_option autoImplicit false

namespace Region

variable {region after : Region} {key : CollectionKey} {bytes : List UInt8}

theorem get?_pushOut {limit : Nat} {keys : List CollectionKey}
    {entries : SortedMap CollectionKey (List UInt8)}
    (h : (pushOut limit keys entries).2.get? key = some bytes) : entries.get? key = some bytes := by
  induction keys generalizing entries with
  | nil => exact h
  | cons oldest keys ih =>
    rw [pushOut] at h
    split at h
    next =>
      have hkept := ih h
      rw [SortedMap.get?_erase] at hkept
      split at hkept
      next => cases hkept
      next => exact hkept
    next => exact h

theorem get?_fitCapacity (h : region.fitCapacity.entries.get? key = some bytes) :
    region.entries.get? key = some bytes := by
  unfold fitCapacity at h
  split at h
  next => exact h
  next limit hlimit => exact get?_pushOut h

@[simp] theorem offline_fitCapacity (region : Region) :
    region.fitCapacity.offline = region.offline := by
  unfold fitCapacity
  split <;> rfl

theorem get?_write {other : CollectionKey} {found : List UInt8}
    (h : (region.write key bytes).entries.get? other = some found) :
    other = key ∧ found = bytes ∨ region.entries.get? other = some found := by
  by_cases hkey : key = other
  · subst hkey
    rw [write, SortedMap.get?_insert_self] at h
    exact Or.inl ⟨rfl, (Option.some.inj h).symm⟩
  · rw [write, SortedMap.get?_insert_of_ne _ _ hkey] at h
    exact Or.inr h

theorem put_eq_ok (h : region.put key bytes = .ok after) :
    after.offline = region.offline ∧ ∀ other found, after.entries.get? other = some found →
      other = key ∧ found = bytes ∨ region.entries.get? other = some found := by
  obtain ⟨_, _, h⟩ := bind_eq_ok.mp h
  split at h
  next =>
    obtain rfl := Except.ok.inj h
    exact ⟨rfl, fun _ _ => get?_write⟩
  next =>
    obtain rfl := Except.ok.inj h
    exact ⟨offline_fitCapacity _, fun _ _ hfound => get?_write (get?_fitCapacity hfound)⟩

theorem evict_eq_ok {removed : Bool} (h : region.evict key = .ok (removed, after)) :
    after.offline = region.offline ∧ after.entries = region.entries.erase key := by
  obtain ⟨_, _, h⟩ := bind_eq_ok.mp h
  split at h
  next =>
    obtain ⟨_, rfl⟩ := Prod.mk.inj (Except.ok.inj h)
    exact ⟨rfl, rfl⟩
  next hnone =>
    obtain ⟨_, rfl⟩ := Prod.mk.inj (Except.ok.inj h)
    have habsent : region.entries.get? key = none := by
      rw [← SortedMap.contains_eq_false_iff]
      simpa [contains] using hnone
    exact ⟨rfl, (SortedMap.erase_of_none habsent).symm⟩

theorem exists_evict (h : region.offline = false) (key : CollectionKey) :
    ∃ removed after, region.evict key = .ok (removed, after) := by
  rw [evict, checkOnline, h]
  cases region.contains key with
  | true => exact ⟨_, _, rfl⟩
  | false => exact ⟨_, _, rfl⟩

end Region

namespace Cache

/-- The region answers, and nothing stands in for its answers. -/
structure Reachable (cache : Cache) : Prop where
  online : cache.region.offline = false
  faultless : cache.faults = {}

variable {cache after : Cache} {key : CollectionKey} {bytes : List UInt8}

theorem Reachable.put (h : cache.Reachable) (hput : cache.put key bytes = .ok after) :
    after.Reachable ∧ ∀ other found, after.region.entries.get? other = some found →
      other = key ∧ found = bytes ∨ cache.region.entries.get? other = some found := by
  rw [Cache.put, h.faultless] at hput
  obtain ⟨region, hregion, hput⟩ := bind_eq_ok.mp hput
  obtain rfl := Except.ok.inj hput
  obtain ⟨hoffline, hentries⟩ := Region.put_eq_ok hregion
  exact ⟨⟨hoffline.trans h.online, rfl⟩, hentries⟩

theorem Reachable.evict (h : cache.Reachable) (key : CollectionKey) :
    ∃ removed after, cache.evict key = .ok (removed, after) ∧ after.Reachable ∧
      after.region.entries = cache.region.entries.erase key := by
  obtain ⟨removed, region, hevict⟩ := Region.exists_evict h.online key
  obtain ⟨hoffline, hentries⟩ := Region.evict_eq_ok hevict
  refine ⟨removed, { cache with region }, ?_, ⟨hoffline.trans h.online, h.faultless⟩, hentries⟩
  rw [Cache.evict, h.faultless, guarded, hevict]
  rfl

theorem Reachable.get? (h : cache.Reachable) (key : CollectionKey) :
    cache.get? key = .ok (cache.region.entries.get? key) := by
  rw [Cache.get?, h.faultless, guarded, Region.get?, Region.checkOnline, h.online]
  rfl

end Cache

end LazyCollections
