import LazyCollections.Proofs.Collection.Initializing
import LazyCollections.Proofs.Storage.Partition

/-!
# Cache entries that cannot be read

The bytes under the key of a collection may be no item, or no entry, or an entry of another shape,
or one with a key or an element that cannot be read. A load that meets such bytes evicts them before
it asks the loader. From there it goes as it would have gone if nothing had been there: it has the
same result, whether it succeeds or fails, and leaves the same collection and the same cache. Only
the counts of the session tell the two apart.
-/

namespace LazyCollections

set_option autoImplicit false

variable {T : ElementType} {K : Scalar} {σ α β : Type}

def Environment.without (env : Environment σ) (key : CollectionKey) : Environment σ :=
  { env with cache := env.cache.without key }

/-- The region answers when it is asked for an entry or told to evict one. Whether it can be written
to is left open. -/
structure Cache.Answers (cache : Cache) : Prop where
  online : cache.region.offline = false
  get : cache.faults.get = none
  evict : cache.faults.evict = none

theorem Cache.Reachable.answers {cache : Cache} (h : cache.Reachable) : cache.Answers :=
  ⟨h.online, by rw [h.faultless], by rw [h.faultless]⟩

namespace Cache.Answers

variable {cache : Cache}

theorem checkOnline_eq (h : cache.Answers) : cache.region.checkOnline = .ok () := by
  rw [Region.checkOnline, h.online]
  rfl

theorem get?_ok (h : cache.Answers) (key : CollectionKey) :
    cache.get? key = .ok (cache.region.entries.get? key) := by
  rw [Cache.get?_eq, h.get, h.checkOnline_eq]
  rfl

theorem evict_ok (h : cache.Answers) (key : CollectionKey) :
    cache.evict key = .ok (cache.region.contains key, cache.without key) := by
  rw [Cache.evict_eq, h.evict, h.checkOnline_eq]
  rfl

theorem get?_without (h : cache.Answers) (key : CollectionKey) :
    (cache.without key).get? key = .ok none := by
  have hspares := cache.spares_without key
  rw [Cache.get?_eq, checkOnline_of_bare hspares.bare, faults_of_bare hspares.bare, h.get,
    h.checkOnline_eq, Cache.get?_without]
  rfl

end Cache.Answers

namespace EnvironmentAction

/-- The action goes the same way whatever sessions have counted. -/
def IgnoresNotes (action : EnvironmentAction σ α) : Prop :=
  ∀ env env', env.Notes env' →
    (action.runOn env').1 = (action.runOn env).1 ∧ (action.runOn env).2.Notes (action.runOn env').2

namespace IgnoresNotes

theorem pure (a : α) : IgnoresNotes (Pure.pure a : EnvironmentAction σ α) :=
  fun _ _ h => ⟨rfl, h⟩

theorem bind {action : EnvironmentAction σ α} {next : α → EnvironmentAction σ β}
    (h : IgnoresNotes action) (hnext : ∀ a, IgnoresNotes (next a)) :
    IgnoresNotes (action >>= next) := by
  intro env env' hnotes
  obtain ⟨hresult, hafter⟩ := h env env' hnotes
  rw [runOn_bind, runOn_bind]
  cases hrun : action.runOn env with
  | mk result after =>
    cases hrun' : action.runOn env' with
    | mk result' after' =>
      rw [hrun, hrun'] at hresult hafter
      obtain rfl := hresult
      cases result' with
      | ok a => exact hnext a after after' hafter
      | error error => exact ⟨rfl, hafter⟩

theorem get_bind {next : Environment σ → EnvironmentAction σ α}
    (hnext : ∀ env env', env.Notes env' → next env' = next env)
    (h : ∀ env, IgnoresNotes (next env)) : IgnoresNotes (get >>= next) := by
  intro env env' hnotes
  simp only [runOn_bind, runOn_get, hnext env env' hnotes]
  exact h env env env' hnotes

theorem replaceCache (cache : Cache) :
    IgnoresNotes (modify fun env => { env with cache } : EnvironmentAction σ Unit) :=
  fun _ _ h => ⟨rfl, h.withCache cache⟩

theorem tally (id : SessionId) (count : SessionStats → SessionStats) :
    IgnoresNotes (tally id count : EnvironmentAction σ Unit) :=
  fun env env' h =>
    ⟨rfl, (env.notes_tally id count).symm.trans (h.trans (env'.notes_tally id count))⟩

theorem ask (question : σ → Except Error α × σ) : IgnoresNotes (ask question) := by
  intro env env' h
  rw [runOn_ask, runOn_ask, h.source]
  exact ⟨rfl, h.withSource _⟩

theorem writeCache (session : Session σ) (d : Descriptor) (a : Attachment)
    (contents : Aggregate T K) : IgnoresNotes (writeCache session d a contents) := by
  rw [EnvironmentAction.writeCache]
  split
  next =>
    split
    next => exact pure ()
    next bytes _ =>
      refine get_bind (fun env env' h => by rw [h.cache]) fun env => ?_
      cases env.cache.put (keyOf d a) bytes with
      | error error => exact pure ()
      | ok cache => exact (replaceCache cache).bind fun _ => tally _ _
  next => exact pure ()

end IgnoresNotes

/-- What a load does that found nothing in the cache: the loader is asked, and what it delivers is
put into the cache. -/
def loadFromSource (session : Session σ) (d : Descriptor) (a : Attachment) :
    EnvironmentAction σ (Aggregate T K) := do
  let contents ← ask fun source =>
    let (feed, source) := session.loader.load (keyOf d a) source
    (feed.contents d.shape, source)
  tally a.session fun n => { n with collectionsLoaded := n.collectionsLoaded + 1 }
  writeCache session d a contents
  return contents

variable {env after : Environment σ} {session : Session σ} {d : Descriptor} {a : Attachment}

theorem runOn_loadContents
    (h : (readCache session d a : EnvironmentAction σ (Option (Aggregate T K))).runOn env =
      (.ok none, after)) :
    (loadContents session d a : EnvironmentAction σ (Aggregate T K)).runOn env =
      (loadFromSource session d a).runOn after := by
  rw [loadContents, runOn_bind, h]
  rfl

theorem IgnoresNotes.loadFromSource (session : Session σ) (d : Descriptor) (a : Attachment) :
    IgnoresNotes (loadFromSource session d a : EnvironmentAction σ (Aggregate T K)) := by
  refine (IgnoresNotes.ask _).bind fun contents => ?_
  refine (IgnoresNotes.tally _ _).bind fun _ => ?_
  exact (IgnoresNotes.writeCache session d a contents).bind fun _ => IgnoresNotes.pure contents

theorem runOn_loadFromSource_of_error {error : Error}
    (h : ((session.loader.load (keyOf d a) env.source).1.contents d.shape :
      Except Error (Aggregate T K)) = .error error) :
    ∃ source, (loadFromSource session d a : EnvironmentAction σ (Aggregate T K)).runOn env =
      (.error error, { env with source }) := by
  refine ⟨(session.loader.load (keyOf d a) env.source).2, ?_⟩
  simp only [loadFromSource, runOn_bind, runOn_ask, h]

section Reading

variable (huses : usesCache session d = true) (hreads : session.config.cacheMode.reads = true)
include huses hreads

theorem readCache_passes_missing (hget : env.cache.get? (keyOf d a) = .ok none) :
    ∃ after, (readCache session d a : EnvironmentAction σ (Option (Aggregate T K))).runOn env =
      (.ok none, after) ∧ env.Notes after := by
  refine ⟨_, ?_, env.notes_tally a.session fun n => { n with cacheMisses := n.cacheMisses + 1 }⟩
  rw [readCache, huses, hreads, Bool.and_self, if_pos rfl, runOn_bind, runOn_get]
  simp only [hget]
  rfl

/-- What cannot be read is evicted, and counts as not there. -/
theorem readCache_passes_unreadable {bytes : List UInt8} {cause : Error}
    (hanswers : env.cache.Answers)
    (hheld : env.cache.region.entries.get? (keyOf d a) = some bytes)
    (hunreadable : (CacheEntry.decode bytes >>= fun entry => entry.assemble d.shape :
      Except Error (Aggregate T K)) = .error cause) :
    ∃ evicted, (readCache session d a : EnvironmentAction σ (Option (Aggregate T K))).runOn env =
      (.ok none, evicted) ∧ (env.without (keyOf d a)).Notes evicted := by
  have hget := hanswers.get?_ok (keyOf d a)
  rw [hheld] at hget
  refine ⟨_, ?_, (env.without (keyOf d a)).notes_tally a.session fun n =>
    { n with cacheEvictions := n.cacheEvictions + 1 }⟩
  rw [readCache, huses, hreads, Bool.and_self, if_pos rfl, runOn_bind, runOn_get]
  simp only [hget, hunreadable, hanswers.evict_ok]
  rfl

end Reading

end EnvironmentAction

/-- Two runs have the same result and leave the same collection, the same cache and the same source.
Only what sessions have counted or noted may tell them apart. -/
structure Setting.EndsAlike (outcome outcome' : Except Error α × Setting T K σ) : Prop where
  result : outcome'.1 = outcome.1
  collection : outcome'.2.collection = outcome.2.collection
  environment : outcome.2.environment.Notes outcome'.2.environment

namespace Collection

variable {c : Collection T K} {env : Environment σ} {session : Session σ} {a : Attachment}

/-- A load evicts an entry that cannot be read before it asks the loader, which finds the entry gone
even if it fails, and initializing then ends as it would have ended without the entry. -/
theorem unreadableEntry_harmless {bytes : List UInt8} {cause : Error}
    (hstage : c.stage = .uninitialized) (hsession : c.session env = .ok (session, a))
    (huses : EnvironmentAction.usesCache session c.descriptor = true)
    (hreads : session.config.cacheMode.reads = true) (hanswers : env.cache.Answers)
    (hheld : env.cache.region.entries.get? (EnvironmentAction.keyOf c.descriptor a) = some bytes)
    (hunreadable : (CacheEntry.decode bytes >>= fun entry => entry.assemble c.descriptor.shape :
      Except Error (Aggregate T K)) = .error cause) :
    let key := EnvironmentAction.keyOf c.descriptor a
    let bare := env.without key
    (∃ evicted, (EnvironmentAction.readCache session c.descriptor a :
          EnvironmentAction σ (Option (Aggregate T K))).runOn env = (.ok none, evicted) ∧
        evicted.cache.get? key = .ok none ∧ evicted.source = env.source ∧
        (EnvironmentAction.loadContents session c.descriptor a :
            EnvironmentAction σ (Aggregate T K)).runOn env =
          (EnvironmentAction.loadFromSource session c.descriptor a).runOn evicted) ∧
      (∀ error, ((session.loader.load key env.source).1.contents c.descriptor.shape :
          Except Error (Aggregate T K)) = .error error →
        (Action.ensureInitialized.runOn ⟨c, env⟩).1 = .error error ∧
          (Action.ensureInitialized.runOn ⟨c, env⟩).2.collection = c ∧
          (Action.ensureInitialized.runOn ⟨c, env⟩).2.environment.cache.get? key = .ok none) ∧
      Setting.EndsAlike (Action.ensureInitialized.runOn ⟨c, bare⟩)
        (Action.ensureInitialized.runOn ⟨c, env⟩) := by
  intro key bare
  have hgone : bare.cache.get? key = .ok none := hanswers.get?_without key
  have hbareSession : c.session bare = .ok (session, a) := hsession
  obtain ⟨evicted, hread, hevicted⟩ :=
    EnvironmentAction.readCache_passes_unreadable huses hreads hanswers hheld hunreadable
  obtain ⟨missed, hmiss, hmissed⟩ :=
    EnvironmentAction.readCache_passes_missing (T := T) (K := K) huses hreads hgone
  have hload := EnvironmentAction.runOn_loadContents hread
  have hbareLoad := EnvironmentAction.runOn_loadContents hmiss
  have hempty : evicted.cache.get? key = .ok none := hevicted.cache ▸ hgone
  refine ⟨⟨evicted, hread, hempty, hevicted.source, hload⟩, ?_, ?_⟩
  · intro error hfails
    rw [show env.source = evicted.source from hevicted.source.symm] at hfails
    obtain ⟨source, hfailed⟩ := EnvironmentAction.runOn_loadFromSource_of_error hfails
    obtain ⟨hresult, hcollection, hnotes⟩ :=
      ensureInitialized_of_load hstage hsession (hload.trans hfailed)
    exact ⟨hresult, hcollection, hnotes.cache ▸ hempty⟩
  · obtain ⟨hresult, hafter⟩ := EnvironmentAction.IgnoresNotes.loadFromSource (T := T) (K := K)
      session c.descriptor a _ _ (hmissed.symm.trans hevicted)
    obtain ⟨hbareResult, hbareCollection, hbareNotes⟩ :=
      ensureInitialized_of_load hstage hbareSession hbareLoad
    obtain ⟨hfullResult, hfullCollection, hfullNotes⟩ :=
      ensureInitialized_of_load hstage hsession hload
    rw [hresult] at hfullResult hfullCollection
    exact ⟨hfullResult.trans hbareResult.symm, hfullCollection.trans hbareCollection.symm,
      hbareNotes.symm.trans (hafter.trans hfullNotes)⟩

end Collection

/-- An entry for a list of notes of which the second is no text. -/
def CacheEntry.brokenBytes : List UInt8 :=
  [0xa3, 0x64, 107, 101, 121, 115, 0x80, 0x65, 115, 104, 97, 112, 101, 0x68, 115, 101, 113, 117,
    101, 110, 99, 101, 0x68, 101, 108, 101, 109, 101, 110, 116, 115, 0x82, 0x61, 97, 0x07]

def Region.brokenNotes : Region :=
  (Region.empty none).inject ⟨⟨"Order.notes"⟩, .filled 0⟩ CacheEntry.brokenBytes

/-- The entry is evicted, the note before the broken one does not stay, and the notes that the
loader streams take the place of the entry. -/
theorem Collection.unreadableEntry_harmless_notes :
    let env : Environment Unit := .keeping .gappedNotes .brokenNotes
    let key : CollectionKey := ⟨⟨"Order.notes"⟩, .filled 0⟩
    ∃ session, growingNotes.stage = .uninitialized ∧
      growingNotes.session env = .ok (session, ⟨⟨0⟩, 0, .filled 0⟩) ∧
      EnvironmentAction.usesCache session growingNotes.descriptor = true ∧
      session.config.cacheMode.reads = true ∧ env.cache.Answers ∧
      env.cache.region.entries.get? key = some CacheEntry.brokenBytes ∧
      (CacheEntry.decode CacheEntry.brokenBytes >>= fun entry => entry.assemble .sequence :
        Except Error (Aggregate (.ofScalar .text) .unkeyed)) =
          .error (.conversion (.kind "text" "integer")) ∧
      Setting.EndsAlike (Action.ensureInitialized.runOn ⟨growingNotes, env.without key⟩)
        (Action.ensureInitialized.runOn ⟨growingNotes, env⟩) ∧
      (Action.ensureInitialized.runOn ⟨growingNotes, env⟩).1 = .ok () ∧
      (Action.ensureInitialized.runOn ⟨growingNotes, env⟩).2.collection.contents =
        .sequence [some "a", none, some "b", some "urgent"] ∧
      (Action.ensureInitialized.runOn ⟨growingNotes, env⟩).2.environment.cache.get? key =
        .ok (some CacheEntry.gappedBytes) := by
  intro env key
  have hreach : env.cache.Reachable := ⟨rfl, rfl⟩
  have hdecode : CacheEntry.decode CacheEntry.brokenBytes =
      .ok (.sequence [.text "a", .integer 7]) := by
    decide +kernel
  have hunreadable : (CacheEntry.decode CacheEntry.brokenBytes >>= fun entry =>
      entry.assemble .sequence : Except Error (Aggregate (.ofScalar .text) .unkeyed)) =
        .error (.conversion (.kind "text" "integer")) := by
    rw [hdecode]
    rfl
  have hsession : growingNotes.session env = .ok (_, ⟨⟨0⟩, 0, .filled 0⟩) := rfl
  have hheld : env.cache.region.entries.get? key = some CacheEntry.brokenBytes :=
    SortedMap.get?_insert_self _ _ _
  obtain ⟨-, -, hends⟩ := unreadableEntry_harmless rfl hsession rfl rfl hreach.answers hheld
    hunreadable
  have hcached : (Action.ensureInitialized.runOn
      ⟨growingNotes, Environment.without (.keeping .gappedNotes .brokenNotes)
        ⟨⟨"Order.notes"⟩, .filled 0⟩⟩).2.environment.cache.get? ⟨⟨"Order.notes"⟩, .filled 0⟩ =
      .ok (some CacheEntry.gappedBytes) := by
    decide +kernel
  refine ⟨_, rfl, hsession, rfl, rfl, hreach.answers, hheld, hunreadable, hends, hends.result,
    congrArg Collection.contents hends.collection, ?_⟩
  rw [hends.environment.cache]
  exact hcached

end LazyCollections
