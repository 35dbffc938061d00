import LazyCollections.Proofs.Cache.Entries
import LazyCollections.Proofs.Cache.Regions
import LazyCollections.Proofs.Collection.Steps
import LazyCollections.Proofs.Refinement.Run
import LazyCollections.World

/-!
# A cache that agrees with the store

Several sessions use one cache over one database, each in its own way. An entry is put into the
cache only with contents that were just loaded, and every write to the rows of a collection is
followed by the eviction of its entry, whatever mode the writing session is in. So what the cache
holds is at all times what a load would give.
-/

namespace LazyCollections

set_option autoImplicit false

/-- Roles whose collections share a cache. Every role has one descriptor, which lets its collections
be cached. -/
structure CachedRoles (κ : Type) where
  kind : κ → Kind
  descriptor : κ → Descriptor
  cacheable : ∀ k, (descriptor k).options.cacheable = true
  distinct : ∀ {k l}, (descriptor k).role = (descriptor l).role → k = l

variable {κ : Type}

namespace CachedRoles

abbrev Contents (S : CachedRoles κ) (k : κ) : Type :=
  Aggregate (S.kind k).element (S.kind k).key

abbrev SettingOf (S : CachedRoles κ) (k : κ) : Type :=
  Setting (S.kind k).element (S.kind k).key Database

def key (S : CachedRoles κ) (k : κ) (owner : EntityId) : CollectionKey :=
  ⟨(S.descriptor k).role, owner⟩

/-- Elements and keys of every role are read back from the canonical form of what they are stored
as. -/
structure Storable (S : CachedRoles κ) : Prop where
  element : ∀ k, (S.kind k).element.StorableCanonical
  key : ∀ k, (S.kind k).key.RestoresCanonical

end CachedRoles

theorem Store.contents_congr {T : ElementType} {K : Scalar} {store later : Store}
    {key : CollectionKey} (h : later.rows? key = store.rows? key) (shape : Shape) :
    (later.contents key shape : Except Error (Aggregate T K)) = store.contents key shape := by
  have hrows : ({ later with offline := false } : Store).rows? key =
      ({ store with offline := false } : Store).rows? key := h
  simp only [contents, load, hrows]
  rfl

theorem Store.contents_eq_ok {T : ElementType} {K : Scalar} {store : Store} {key : CollectionKey}
    {shape : Shape} {a : Aggregate T K} (h : store.contents key shape = .ok a) :
    a.shape = shape ∧ a.KeyedById :=
  Feed.contents_eq_ok h

theorem Store.contents_load_online {T : ElementType} {K : Scalar} {store : Store}
    (h : store.offline = false) (key : CollectionKey) (shape : Shape) :
    ((load key store).1.contents shape : Except Error (Aggregate T K)) =
      store.contents key shape := by
  have hstore : ({ store with offline := false } : Store) = store := by
    rw [← h]
  rw [contents, hstore]

/-- Every session loads from the database and uses the cache, which is in reach. An entry that is
not stale was made of the contents that the rows have now. -/
structure Environment.Coherent (S : CachedRoles κ) (stale : List CollectionKey)
    (env : Environment Database) : Prop where
  hosted : ∀ s ∈ env.sessions, s.loader = Database.loader ∧ s.cached = true
  reachable : env.cache.Reachable
  current : ∀ k owner bytes, S.key k owner ∉ stale →
    env.cache.region.entries.get? (S.key k owner) = some bytes →
      ∃ a : S.Contents k,
        env.source.store.contents (S.key k owner) (S.descriptor k).shape = .ok a ∧
          (CacheEntry.ofAggregate a >>= CacheEntry.encode) = .ok bytes

/-- Every entry that can be read gives what a load would give. -/
def Environment.AgreesWithStorage (S : CachedRoles κ) (env : Environment Database) : Prop :=
  ∀ k owner bytes, env.cache.region.entries.get? (S.key k owner) = some bytes →
    ∀ a : S.Contents k,
      (CacheEntry.decode bytes >>= fun entry => entry.assemble (S.descriptor k).shape) = .ok a →
        env.source.store.contents (S.key k owner) (S.descriptor k).shape = .ok a

def Region.Addressable (region : Region) : Prop :=
  ∀ key bytes, region.entries.get? key = some bytes → bytes.length < UInt64.size

namespace Environment.Coherent

variable {S : CachedRoles κ} {stale : List CollectionKey} {env later : Environment Database}

theorem agreesWithStorage (hS : S.Storable) (h : env.Coherent S [])
    (hsize : env.cache.region.Addressable) : env.AgreesWithStorage S := by
  intro k owner bytes hentry a hread
  obtain ⟨b, hcontents, hbytes⟩ := h.current k owner bytes List.not_mem_nil hentry
  obtain ⟨hshape, hkeyed⟩ := Store.contents_eq_ok hcontents
  rw [← hshape] at hread
  rw [CacheEntry.eq_of_decode_assemble (hS.element k) (hS.key k) hkeyed hbytes
    (hsize _ _ hentry) hread]
  exact hcontents

theorem records (h : env.Coherent S stale) (hrecords : env.Records later) :
    later.Coherent S stale where
  hosted := by
    intro s hs
    obtain ⟨s', hs', hterms⟩ : ∃ s' ∈ env.sessions, s'.terms = s.terms := by
      have hmem : s.terms ∈ later.sessions.map Session.terms := List.mem_map_of_mem hs
      rw [hrecords.sessions] at hmem
      exact List.mem_map.mp hmem
    obtain ⟨hloader, hcached⟩ := h.hosted s' hs'
    simp only [Session.terms, Prod.mk.injEq] at hterms
    exact ⟨hterms.2.1.symm.trans hloader, hterms.2.2.1.symm.trans hcached⟩
  reachable := by
    rw [hrecords.cache]
    exact h.reachable
  current := by
    rw [hrecords.cache, hrecords.source]
    exact h.current

theorem onSession (h : env.Coherent S stale) (id : SessionId)
    {f : Session Database → Session Database}
    (hf : ∀ s, (f s).loader = s.loader ∧ (f s).cached = s.cached) :
    (env.onSession id f).Coherent S stale where
  hosted := by
    intro s hs
    obtain ⟨i, hi⟩ := List.mem_iff_getElem?.mp hs
    rw [Environment.onSession, List.getElem?_modify] at hi
    obtain ⟨s', hs', hi⟩ := Option.map_eq_some_iff.mp hi
    have hhosted := h.hosted s' (List.mem_of_getElem? hs')
    split at hi
    next =>
      obtain rfl := hi
      exact ⟨(hf s').1.trans hhosted.1, (hf s').2.trans hhosted.2⟩
    next =>
      obtain rfl := hi
      exact hhosted
  reachable := h.reachable
  current := h.current

theorem openSession (h : env.Coherent S stale) (config : SessionConfig) :
    (env.openSession config Database.loader true).2.Coherent S stale where
  hosted := by
    intro s hs
    rcases List.mem_append.mp hs with hs | hs
    · exact h.hosted s hs
    · obtain rfl := List.mem_singleton.mp hs
      exact ⟨rfl, rfl⟩
  reachable := h.reachable
  current := h.current

theorem withSource (h : env.Coherent S stale) {db : Database} {keys : List CollectionKey}
    (hstale : stale ⊆ keys)
    (hrows : ∀ key, key ∉ keys → db.store.rows? key = env.source.store.rows? key) :
    ({ env with source := db } : Environment Database).Coherent S keys where
  hosted := h.hosted
  reachable := h.reachable
  current := by
    intro k owner bytes hkey hentry
    obtain ⟨a, hcontents, hbytes⟩ :=
      h.current k owner bytes (fun hmem => hkey (hstale hmem)) hentry
    exact ⟨a, (Store.contents_congr (hrows _ hkey) _).trans hcontents, hbytes⟩

theorem load (h : env.Coherent S stale) (k : κ) (owner : EntityId) :
    ({ env with source := { env.source with
        store := (Store.load (S.key k owner) env.source.store).2 } } :
      Environment Database).Coherent S stale ∧
      ∀ c : S.Contents k,
        (Store.load (S.key k owner) env.source.store).1.contents (S.descriptor k).shape = .ok c →
          env.source.store.contents (S.key k owner) (S.descriptor k).shape = .ok c ∧
          (Store.load (S.key k owner) env.source.store).2.contents (S.key k owner)
            (S.descriptor k).shape = .ok c := by
  have hagrees := Store.agrees_load env.source.store (S.key k owner)
  have hrows : ∀ key, (Store.load (S.key k owner) env.source.store).2.rows? key =
      env.source.store.rows? key := fun key => by rw [Store.rows?, hagrees.collections]; rfl
  refine ⟨h.withSource (List.Subset.refl _) fun key _ => hrows key, ?_⟩
  intro c hc
  have hcontents : env.source.store.contents (S.key k owner) (S.descriptor k).shape = .ok c := by
    cases hoff : env.source.store.offline with
    | true =>
      rw [Store.contents_load_offline hoff] at hc
      cases hc
    | false => rwa [Store.contents_load_online hoff] at hc
  exact ⟨hcontents, (Store.contents_congr (hrows _) _).trans hcontents⟩

theorem withCache (h : env.Coherent S stale) {cache : Cache} (hreach : cache.Reachable)
    (hentries : ∀ key bytes, cache.region.entries.get? key = some bytes →
      key ∉ stale ∧ env.cache.region.entries.get? key = some bytes) :
    ({ env with cache } : Environment Database).Coherent S [] where
  hosted := h.hosted
  reachable := hreach
  current := fun k owner bytes _ hentry =>
    h.current k owner bytes (hentries _ _ hentry).1 (hentries _ _ hentry).2

/-- An eviction takes the only entry away that may be stale. -/
theorem evict (h : env.Coherent S stale) {key : CollectionKey} (hstale : ∀ k ∈ stale, k = key) :
    ∃ removed cache, env.cache.evict key = .ok (removed, cache) ∧
      ({ env with cache } : Environment Database).Coherent S [] := by
  obtain ⟨removed, cache, hevict, hreach, hentries⟩ := h.reachable.evict key
  refine ⟨removed, cache, hevict, h.withCache hreach ?_⟩
  intro other bytes hentry
  rw [hentries, SortedMap.get?_erase] at hentry
  split at hentry
  next => cases hentry
  next hne =>
    refine ⟨fun hmem => hne ?_, hentry⟩
    rw [hstale other hmem]
    exact Std.ReflCmp.compare_self

theorem put (h : env.Coherent S []) {k : κ} {owner : EntityId} {c : S.Contents k}
    (hcontents : env.source.store.contents (S.key k owner) (S.descriptor k).shape = .ok c)
    {bytes : List UInt8} (hbytes : (CacheEntry.ofAggregate c >>= CacheEntry.encode) = .ok bytes)
    {cache : Cache} (hput : env.cache.put (S.key k owner) bytes = .ok cache) :
    ({ env with cache } : Environment Database).Coherent S [] where
  hosted := h.hosted
  reachable := (h.reachable.put hput).1
  current := by
    intro l other found _ hentry
    rcases (h.reachable.put hput).2 _ _ hentry with ⟨hkey, rfl⟩ | hentry
    · obtain ⟨hrole, rfl⟩ := CollectionKey.mk.inj hkey
      obtain rfl := S.distinct hrole
      exact ⟨c, hcontents, hbytes⟩
    · exact h.current l other found List.not_mem_nil hentry

end Environment.Coherent

namespace EnvironmentAction

variable {S : CachedRoles κ} {stale : List CollectionKey} {env : Environment Database}
variable {k : κ} {s : Session Database} {a : Attachment}

theorem readCache_ensures (h : env.Coherent S []) :
    Ensures env (readCache s (S.descriptor k) a)
      (fun (found : Option (S.Contents k)) after => after.Coherent S [] ∧
        after.source = env.source ∧ ∀ c, found = some c → ∃ bytes,
          env.cache.region.entries.get? (S.key k a.owner) = some bytes ∧
            (CacheEntry.decode bytes >>= fun entry => entry.assemble (S.descriptor k).shape) =
              .ok c)
      fun _ after => after.Coherent S [] := by
  have hnothing {P : S.Contents k → Prop} (c : S.Contents k) (hc : none = some c) : P c :=
    absurd hc.symm (Option.some_ne_none c)
  rw [readCache]
  split
  next =>
    apply Ensures.get_bind
    simp only [h.reachable.get?]
    cases hentry : env.cache.region.entries.get? (keyOf (S.descriptor k) a) with
    | none =>
      apply Ensures.tally_bind
      exact Ensures.pure ⟨h.records (env.records_onSession _ fun _ => rfl), rfl, hnothing⟩
    | some bytes =>
      simp only
      split
      next c hread =>
        apply Ensures.tally_bind
        apply Ensures.pure
        refine ⟨h.records (env.records_onSession _ fun _ => rfl), rfl, ?_⟩
        intro _ heq
        cases heq
        exact ⟨bytes, hentry, hread⟩
      next =>
        obtain ⟨removed, cache, hevict, hafter⟩ :=
          h.evict fun (stale : CollectionKey) (hmem : stale ∈ []) =>
            (absurd hmem List.not_mem_nil : stale = keyOf (S.descriptor k) a)
        simp only [hevict]
        apply Ensures.modify_bind
        apply Ensures.tally_bind
        exact Ensures.pure
          ⟨hafter.records (Environment.records_onSession _ _ fun _ => rfl), rfl, hnothing⟩
  next => exact Ensures.pure ⟨h, rfl, hnothing⟩

theorem writeCache_ensures {c : S.Contents k} {E : Error → Environment Database → Prop}
    (h : env.Coherent S [])
    (hcontents : env.source.store.contents (S.key k a.owner) (S.descriptor k).shape = .ok c) :
    Ensures env (writeCache s (S.descriptor k) a c) (fun _ after => after.Coherent S []) E := by
  rw [writeCache]
  split
  next =>
    split
    next => exact Ensures.pure h
    next bytes hbytes =>
      apply Ensures.get_bind
      cases hput : env.cache.put (keyOf (S.descriptor k) a) bytes with
      | error error => exact Ensures.pure h
      | ok cache =>
        apply Ensures.modify_bind
        apply Ensures.tally
        exact (h.put hcontents hbytes hput).records (Environment.records_onSession _ _ fun _ => rfl)
  next => exact Ensures.pure h

theorem evictCache_ensures {E : Error → Environment Database → Prop} (h : env.Coherent S stale)
    (hstale : ∀ key ∈ stale, key = S.key k a.owner) (hcached : s.cached = true) :
    Ensures env (evictCache s (S.descriptor k) a) (fun _ after => after.Coherent S []) E := by
  have huses : usesCache s (S.descriptor k) = true := by
    rw [usesCache, hcached, S.cacheable k]
    rfl
  obtain ⟨removed, cache, hevict, hafter⟩ := h.evict hstale
  rw [evictCache, huses, if_pos rfl]
  apply Ensures.get_bind
  simp only [keyOf]
  rw [CachedRoles.key] at hevict
  simp only [hevict]
  apply Ensures.modify_bind
  split
  next => exact Ensures.tally (hafter.records (Environment.records_onSession _ _ fun _ => rfl))
  next => exact Ensures.pure hafter

theorem loadContents_ensures (h : env.Coherent S []) (hloader : s.loader = Database.loader) :
    Ensures env (loadContents s (S.descriptor k) a)
      (fun (c : S.Contents k) after => after.Coherent S [] ∧ (env.AgreesWithStorage S →
        env.source.store.contents (S.key k a.owner) (S.descriptor k).shape = .ok c))
      fun _ after => after.Coherent S [] := by
  refine (readCache_ensures h).bind ?_
  intro found later hlater
  obtain ⟨hcoherent, hsource, hfound⟩ := hlater
  cases found with
  | some c =>
    apply Ensures.pure
    refine ⟨hcoherent, fun hagrees => ?_⟩
    obtain ⟨bytes, hentry, hread⟩ := hfound c rfl
    exact hagrees k a.owner bytes hentry c hread
  | none =>
    refine Ensures.bind (Q := fun c after => after.Coherent S [] ∧
      env.source.store.contents (S.key k a.owner) (S.descriptor k).shape = .ok c ∧
      after.source.store.contents (S.key k a.owner) (S.descriptor k).shape = .ok c) ?_ ?_
    · apply Ensures.ask
      obtain ⟨hafter, hcontents⟩ := hcoherent.load k a.owner
      simp only [← hsource, hloader, Database.loader, Database.onStore, keyOf]
      rw [CachedRoles.key] at hafter hcontents
      cases hresult : (Store.load ⟨(S.descriptor k).role, a.owner⟩ later.source.store).1.contents
          (S.descriptor k).shape with
      | error error => exact hafter
      | ok c => exact ⟨hafter, hcontents c hresult⟩
    · intro c after hafter
      have hcounted := hafter.1.records (after.records_tally a.session
        fun n => { n with collectionsLoaded := n.collectionsLoaded + 1 })
      apply Ensures.tally_bind
      refine (writeCache_ensures hcounted hafter.2.2).bind ?_
      intro _ last hlast
      exact Ensures.pure ⟨hlast, fun _ => hafter.2.1⟩

theorem ask_ensures {α : Type} (h : env.Coherent S [])
    {question : Store → Except Error α × Store}
    (hq : ∀ store : Store, store.Agrees (question store).2) :
    Ensures env (ask (Database.onStore question)) (fun _ after => after.Coherent S [])
      fun _ after => after.Coherent S [] := by
  have hafter : ({ env with source := { env.source with
      store := (question env.source.store).2 } } : Environment Database).Coherent S [] :=
    h.withSource (List.Subset.refl _) fun key _ => by
      simp only [Store.rows?, (hq _).collections]
  apply Ensures.ask
  simp only [Database.onStore]
  cases hresult : (question env.source.store).1 <;> exact hafter

end EnvironmentAction

end LazyCollections
