import LazyCollections.Proofs.Cache.Regions
import LazyCollections.Proofs.Collection.Reports

/-!
# Flushes that fail and are tried again

A flush of a cacheable collection fails if the persister refuses or if the region cannot evict the
entry of the collection. A refused flush has changed nothing, and the next one does all of its work.
A flush that could not evict has written before, and has nothing left to do: the rows are what the
collection holds, and the entry stays as it was.
-/

namespace LazyCollections

set_option autoImplicit false

variable {T : ElementType} {K : Scalar} {σ : Type}

/-- A failure of the persister or of the region, and not of the collection itself. -/
inductive Error.OfCollaborator : Error → Prop
  | refused : OfCollaborator (.sourceUnavailable .refused)
  | region (error : RegionError) : OfCollaborator (.cache error)

def Environment.recovered (env : Environment Database) : Environment Database where
  sessions := env.sessions
  cache := { region := env.cache.region.setOffline false }
  source :=
    { env.source with
      store := { env.source.store with offline := false }
      refuseNext := false }

def Setting.recovered (s : Setting T K Database) : Setting T K Database :=
  { s with environment := s.environment.recovered }

/-- What the entry of the collection of an owner is read as, if there is one that can be read. -/
def Environment.cached? (env : Environment σ) (d : Descriptor) (owner : EntityId) :
    Option (Aggregate T K) :=
  (env.cache.region.entries.get? ⟨d.role, owner⟩).bind fun bytes =>
    (CacheEntry.decode bytes >>= fun entry => entry.assemble d.shape).toOption

theorem Environment.reachable_recovered (env : Environment Database) :
    env.recovered.cache.Reachable :=
  ⟨rfl, rfl⟩

namespace EnvironmentAction.Ensures

variable {env : Environment σ} {session : Session σ} {d : Descriptor} {a : Attachment}

theorem evictCache_fails :
    Ensures env (EnvironmentAction.evictCache session d a) (fun _ _ => True)
      fun error after => env = after ∧ ∃ cause, error = .cache cause := by
  rw [EnvironmentAction.evictCache]
  split
  next =>
    apply get_bind
    split
    next cause _ => exact throw ⟨rfl, cause, rfl⟩
    next removed cache _ =>
      apply modify_bind
      split
      next => exact tally trivial
      next => exact pure trivial
  next => exact pure trivial

/-- Afterwards nothing is read of a collection in a region in reach, whether its session has used
the region or there was nothing before. -/
theorem evictCache_removes (hreach : env.cache.Reachable)
    (huses : usesCache session d = true ∨
      (env.cached? d a.owner : Option (Aggregate T K)) = none) :
    Ensures env (EnvironmentAction.evictCache session d a)
      (fun _ after => after.source = env.source ∧
        (after.cached? d a.owner : Option (Aggregate T K)) = none)
      fun _ _ => False := by
  rw [EnvironmentAction.evictCache]
  split
  next =>
    obtain ⟨removed, cache, hevict, _, hentries⟩ := hreach.evict (keyOf d a)
    have hnone (sessions : List (Session σ)) :
        (Environment.cached? ⟨sessions, cache, env.source⟩ d a.owner :
          Option (Aggregate T K)) = none := by
      rw [Environment.cached?, hentries, keyOf, SortedMap.get?_erase_self]
      rfl
    apply get_bind
    simp only [hevict]
    apply modify_bind
    split
    next => exact tally ⟨rfl, hnone _⟩
    next => exact pure ⟨rfl, hnone _⟩
  next hunused => exact pure ⟨rfl, huses.resolve_left hunused⟩

end EnvironmentAction.Ensures

/-- A cacheable collection that has grown from what is stored. Its entry, if there is one that can
be read, was made of that, and its session can evict it. -/
structure Setting.GrownCached (d : Descriptor) (a : Attachment) (stored now : Aggregate T K)
    (s : Setting T K Database) : Prop extends s.GrownFrom d a stored now where
  cacheable : d.options.cacheable = true
  cached : ∀ session, s.environment.session? a.session = some session →
    session.cached = true ∨ (s.environment.cached? d a.owner : Option (Aggregate T K)) = none
  agrees : ∀ entry : Aggregate T K,
    s.environment.cached? d a.owner = some entry → entry = stored

/-- What a flush leaves that a collaborator has made fail: the collection as it was, if the
persister has refused, and one without anything left to write, if its entry could not be
evicted. -/
inductive Setting.LeftByFailure (d : Descriptor) (a : Attachment) (now : Aggregate T K)
    (s : Setting T K Database) : Error → Setting T K Database → Prop
  | refused {changes : ChangeSet T.Element K.Carrier} {source : Database}
    (hover : s.HandsOver a changes) (store_eq : source.store = s.environment.source.store) :
    s.LeftByFailure d a now (.sourceUnavailable .refused)
      ⟨s.collection, { s.environment with source }⟩
  | unevicted {cause : RegionError} {rows next : Aggregate T K} {env : Environment Database}
    (ready : s.collection.stage ≠ .initializing)
    (settled : Setting.GrownFrom d a rows next ⟨s.collection.settled, env⟩)
    (rows_eq : rows.trimmed = now.trimmed) (next_eq : next.trimmed = now.trimmed)
    (cache_eq : env.cache = s.environment.cache) :
    s.LeftByFailure d a now (.cache cause) ⟨s.collection.settled, env⟩

theorem Collection.atRest_settled (c : Collection T K) : c.settled.AtRest := by
  cases hloaded : c.isLoaded with
  | true =>
    rw [settled_of_loaded hloaded]
    exact .inr (.inl ⟨hloaded, rfl⟩)
  | false =>
    rw [settled_of_unloaded hloaded]
    exact .inr (.inr ⟨hloaded, rfl⟩)

theorem Setting.HandsOver.withEnvironment {s : Setting T K σ} {a : Attachment}
    {changes : ChangeSet T.Element K.Carrier} (h : s.HandsOver a changes) {env : Environment σ}
    (hsessions : env.sessions = s.environment.sessions) :
    Setting.HandsOver { s with environment := env } a changes := by
  have hsession : s.collection.session env = s.collection.session s.environment := by
    simp only [Collection.session, Environment.activeSession, Environment.session?, hsessions]
  cases h with
  | queue hflushes hwork =>
    exact .queue (s := { s with environment := env }) ⟨hflushes.writable, hflushes.ready,
      hflushes.unloaded, hflushes.queued, hsession.trans hflushes.session⟩ hwork
  | contents hflushes =>
    exact .contents (s := { s with environment := env }) ⟨hflushes.writable, hflushes.loaded,
      hflushes.dirty, hflushes.unequal, hsession.trans hflushes.session, hflushes.diff⟩

namespace Setting.GrownCached

open LazyCollections.Action

variable {d : Descriptor} {a : Attachment} {stored now : Aggregate T K}
variable {s : Setting T K Database}

theorem usesCache_or (h : s.GrownCached d a stored now) {b : Attachment}
    {session : Session Database}
    (hsession : s.collection.session s.environment = .ok (session, b)) :
    EnvironmentAction.usesCache session d = true ∨
      (s.environment.cached? d a.owner : Option (Aggregate T K)) = none := by
  obtain ⟨hattachment, hfound, _⟩ := Collection.session_eq_ok hsession
  rw [h.attachment] at hattachment
  obtain rfl := Option.some.inj hattachment
  refine (h.cached session hfound).imp_left fun hcached => ?_
  rw [EnvironmentAction.usesCache, hcached, h.cacheable]
  rfl

theorem flush_fails (hT : T.Faithful d.shape) (hK : K.Restores)
    (hlawful : s.collection.isLoaded = true → T.Lawful d.shape) (h : s.GrownCached d a stored now) :
    Ensures s (flush Database.persister) (fun _ _ => True)
      fun error after => error.OfCollaborator → s.LeftByFailure d a now error after := by
  apply Ensures.flush
  · exact fun _ _ _ => trivial
  · intro _ error hlost
    obtain ⟨cause, rfl⟩ := Collection.session_eq_error hlost
    nofun
  · nofun
  · intro _ hloaded error hincomparable
    have hT' : T.Lawful stored.shape := h.shape_eq ▸ hlawful hloaded
    obtain ⟨changes, hdiff, _⟩ := h.grown.diff_spec hT' h.keyedById hloaded
    rw [hdiff] at hincomparable
    cases hincomparable
  · exact fun _ _ _ => trivial
  · intro session b hflushes hnothing
    refine EnvironmentAction.Ensures.evictCache_fails.mono (fun _ _ _ => trivial) ?_
    rintro _ _ ⟨rfl, cause, rfl⟩ _
    have hcancelled := h.trimmed_eq_of_cancelled hflushes.unloaded hnothing
    exact .unevicted hflushes.ready (h.withoutQueue hflushes.unloaded h.toProvides)
      hcancelled.symm hcancelled.symm rfl
  · intro b changes hover
    obtain rfl := hover.attachment_unique h.attachment
    apply Ensures.flush_of_handsOver hover
    · intro source haccepted session _ later hlater
      refine EnvironmentAction.Ensures.evictCache_fails.mono (fun _ _ _ => trivial) ?_
      rintro _ _ ⟨rfl, cause, rfl⟩ _
      rw [h.descriptor] at haccepted
      have hprovides := h.provides_persister hT hK hlawful hover haccepted
      rw [← show later.source = source from hlater.source] at hprovides
      obtain ⟨next, hnext, hsettled⟩ := h.settled hT hprovides
      exact .unevicted hover.ready hsettled now.trimmed_trimmed hnext hlater.cache
    · intro error source hrefused _
      obtain rfl := Database.error_eq_refused hT.toStorable hrefused
      exact .refused hover (Database.store_of_persister_error hrefused)

/-- What is left of a cacheable collection by a flush once it was tried again: rows and contents
that it had before the first flush, and an entry that was evicted, or else is the one from
before. -/
def Retried (d : Descriptor) (a : Attachment) (now : Aggregate T K) (error : Error)
    (s after : Setting T K Database) : Prop :=
  ∃ rows next : Aggregate T K, rows.trimmed = now.trimmed ∧ next.trimmed = now.trimmed ∧
    after.GrownFrom d a rows next ∧
      (after.environment.cached? d a.owner : Option (Aggregate T K)) =
        if error.isRetryable then none else s.environment.cached? d a.owner

theorem retry_of_refused (hT : T.Faithful d.shape) (hK : K.Restores)
    (hlawful : s.collection.isLoaded = true → T.Lawful d.shape)
    (h : s.GrownCached d a stored now) {changes : ChangeSet T.Element K.Carrier}
    (hover : s.HandsOver a changes) {source : Database}
    (hstore : source.store = s.environment.source.store) :
    Ensures (Setting.recovered ⟨s.collection, { s.environment with source }⟩)
      (flush Database.persister) (fun _ => Retried d a now (.sourceUnavailable .refused) s)
      fun _ _ => False := by
  let env := Environment.recovered { s.environment with source }
  have hcollections : source.store.collections = s.environment.source.store.collections := by
    rw [hstore]
  have hidentities : source.store.identities = s.environment.source.store.identities := by
    rw [hstore]
  have hgrown : Setting.GrownFrom d a stored now { s with environment := env } :=
    h.toGrownFrom.withEnvironment hcollections hidentities
  have hover' : Setting.HandsOver { s with environment := env } a changes :=
    hover.withEnvironment rfl
  apply Ensures.flush_of_handsOver hover'
  · intro after haccepted session hsession later hlater
    rw [h.descriptor] at haccepted
    have hprovides := hgrown.provides_persister hT hK hlawful hover' haccepted
    have hreach : later.cache.Reachable := by
      rw [hlater.cache]
      exact Environment.reachable_recovered _
    have hcached : (later.cached? d a.owner : Option (Aggregate T K)) =
        s.environment.cached? d a.owner := by
      rw [Environment.cached?, hlater.cache]
      rfl
    have huses := h.usesCache_or hsession
    rw [← hcached] at huses
    rw [h.descriptor]
    refine (EnvironmentAction.Ensures.evictCache_removes hreach huses).mono ?_ fun _ _ h => h
    rintro _ last ⟨hsource, hnone⟩
    rw [← show last.source = after from hsource.trans hlater.source] at hprovides
    obtain ⟨next, hnext, hsettled⟩ := hgrown.settled hT hprovides
    exact ⟨_, next, now.trimmed_trimmed, hnext, hsettled, hnone⟩
  · intro error after hrefused
    rw [Database.persister_accepts hT.toStorable rfl] at hrefused
    cases hrefused

theorem retry_of_unevicted {cause : RegionError} {rows next : Aggregate T K}
    {env : Environment Database} (hready : s.collection.stage ≠ .initializing)
    (hsettled : Setting.GrownFrom d a rows next ⟨s.collection.settled, env⟩)
    (hrows : rows.trimmed = now.trimmed) (hnext : next.trimmed = now.trimmed)
    (hcache : env.cache = s.environment.cache) :
    Ensures (Setting.recovered ⟨s.collection.settled, env⟩) (flush Database.persister)
      (fun _ => Retried d a now (.cache cause) s) fun _ _ => False := by
  have hstage : s.collection.settled.stage ≠ .initializing := by
    rwa [Collection.stage_settled]
  refine (Ensures.flush_of_atRest (s := Setting.recovered ⟨s.collection.settled, env⟩)
    s.collection.atRest_settled hstage _).post ?_
  rintro _ ⟨c, last⟩ ⟨rfl, hlast⟩
  refine ⟨rows, next, hrows, hnext, hsettled.withEnvironment ?_ ?_, ?_⟩
  · rw [hlast.source]
    rfl
  · rw [hlast.source]
    rfl
  · rw [Environment.cached?, hlast.cache, Environment.cached?, ← hcache]
    rfl

theorem retry_ensures (hT : T.Faithful d.shape) (hK : K.Restores)
    (hlawful : s.collection.isLoaded = true → T.Lawful d.shape) (h : s.GrownCached d a stored now)
    {error : Error} {failed : Setting T K Database} (hleft : s.LeftByFailure d a now error failed) :
    Ensures failed.recovered (flush Database.persister) (fun _ => Retried d a now error s)
      fun _ _ => False := by
  cases hleft with
  | refused hover hstore => exact h.retry_of_refused hT hK hlawful hover hstore
  | unevicted hready hsettled hrows hnext hcache =>
    exact retry_of_unevicted hready hsettled hrows hnext hcache

end Setting.GrownCached

def Descriptor.cachedNotes : Descriptor :=
  ⟨⟨"Order.notes"⟩, .sequence, { cacheable := true }⟩

/-- The list of one note is loaded through a session with a cache and gets another note. Then the
region is out of reach. -/
def Setting.cutOff : Setting (.ofScalar .text) .unkeyed Database :=
  let env := Environment.noting ["fragile"]
  let sessions := env.sessions.map fun session => { session with cached := true }
  let s := Step.runAll ShapedCall.run [.ensureInitialized, .call (.ofList (.push "urgent"))]
    ⟨.unloaded .cachedNotes ⟨⟨0⟩, 0, .filled 0⟩ false, { env with sessions }⟩
  let cache := { s.environment.cache with region := s.environment.cache.region.setOffline true }
  { s with environment := { s.environment with cache } }

theorem Setting.grownCached_cutOff :
    Setting.cutOff.GrownCached .cachedNotes ⟨⟨0⟩, 0, .filled 0⟩
      (.sequence [some "fragile"]) (.sequence [some "fragile", some "urgent"]) where
  toProvides := (Environment.provides_noting ["fragile"] { cacheable := true }).congr ⟨rfl, rfl⟩
  descriptor := rfl
  attachment := rfl
  grown := .loaded rfl rfl rfl trivial (.inr ⟨_, rfl, rfl⟩)
  cacheable := rfl
  cached := by
    rintro _ ⟨⟩
    exact .inl rfl
  agrees := by
    have hentry : (Setting.cutOff.environment.cached? .cachedNotes (.filled 0) :
        Option (Aggregate (.ofScalar .text) .unkeyed)) = some (.sequence [some "fragile"]) := rfl
    intro entry h
    rw [hentry] at h
    exact (Option.some.inj h).symm

section Retry

open LazyCollections.Action

variable {d : Descriptor} {a : Attachment} {stored now : Aggregate T K}
variable {s : Setting T K Database} {error : Error}

/-- A cacheable collection, whose entry is that of the stored rows, is flushed, and the persister
or the region makes the flush fail. Once they work again the next flush succeeds, and the rows are
what the collection held, up to null slots at the end. No stale entry is left if the persister had
refused. If the region had failed one is left exactly if there was an entry that could be read and
the rows have changed. -/
theorem failedFlush_retried (hT : T.Faithful d.shape) (hK : K.Restores)
    (hlawful : s.collection.isLoaded = true → T.Lawful d.shape)
    (h : s.GrownCached d a stored now)
    (hfailed : ((flush Database.persister).runOn s).1 = .error error)
    (hcause : error.OfCollaborator) :
    let failed := ((flush Database.persister).runOn s).2
    let retried := (flush Database.persister).runOn failed.recovered
    (∃ outcome, retried.1 = .ok outcome) ∧
      ∃ held rows contents : Aggregate T K, s.logicalContents = .ok held ∧
        retried.2.logicalContents = .ok contents ∧ contents.trimmed = held.trimmed ∧
        retried.2.environment.source.store.contents ⟨d.role, a.owner⟩ d.shape = .ok rows ∧
        rows.trimmed = contents.trimmed ∧
        ((∃ entry, retried.2.environment.cached? d a.owner = some entry ∧ entry ≠ rows) ↔
          error.isRetryable = false ∧ s.environment.cached? d a.owner = some stored ∧
            stored ≠ rows) := by
  intro failed retried
  have hleft : s.LeftByFailure d a now error failed :=
    (h.flush_fails hT hK hlawful).elim (G := fun result after => result = .error error →
      s.LeftByFailure d a now error after) (fun _ _ _ => nofun)
      (fun _ _ hleft hresult => by cases hresult; exact hleft hcause) hfailed
  obtain ⟨hsucceeds, rows, next, hrows, hnext, hgrown, hentry⟩ :=
    (h.retry_ensures hT hK hlawful hleft).elim (G := fun result after =>
        (∃ outcome, result = .ok outcome) ∧ Setting.GrownCached.Retried d a now error s after)
      (fun outcome _ hafter => ⟨⟨outcome, rfl⟩, hafter⟩) (fun _ _ => False.elim)
  refine ⟨hsucceeds, now, rows, next, h.logicalContents_eq hT hK, hgrown.logicalContents_eq hT hK,
    hnext, hgrown.contents_eq hT.toStorable hK, hrows.trans hnext.symm, ?_⟩
  rw [hentry]
  -- A refusal has written nothing yet, so only an eviction that failed can leave a stale entry.
  cases hcause with
  | refused =>
    constructor
    · rintro ⟨_, hnone, _⟩
      cases hnone
    · rintro ⟨hretryable, _⟩
      cases hretryable
  | region cause =>
    constructor
    · rintro ⟨entry, hread, hstale⟩
      obtain rfl := h.agrees entry hread
      exact ⟨rfl, hread, hstale⟩
    · rintro ⟨_, hread, hstale⟩
      exact ⟨stored, hread, hstale⟩

theorem failedFlush_retried_notes :
    ((flush Database.persister).runOn Setting.cutOff).1 =
        .error (.cache (.unavailable "region offline")) ∧
      let failed := ((flush Database.persister).runOn Setting.cutOff).2
      let retried := (flush Database.persister).runOn failed.recovered
      (∃ outcome, retried.1 = .ok outcome) ∧
        ∃ rows contents : Aggregate (.ofScalar .text) .unkeyed,
          retried.2.logicalContents = .ok contents ∧
          retried.2.environment.source.store.contents ⟨⟨"Order.notes"⟩, .filled 0⟩ .sequence =
            .ok rows ∧
          rows.trimmed = contents.trimmed := by
  have hT := ElementType.lawful_text .sequence
  obtain ⟨hsucceeds, _, rows, contents, _, hcontents, _, hrows, hequal, _⟩ :=
    failedFlush_retried hT.faithful Scalar.restores_unkeyed (fun _ => hT)
      Setting.grownCached_cutOff rfl (.region (.unavailable "region offline"))
  exact ⟨rfl, hsucceeds, rows, contents, hcontents, hrows, hequal⟩

/-- Before the flush the entry is what is stored. The next flush finds nothing to write: the new
note is stored, and the entry is without it. -/
theorem Setting.staleEntry_cutOff :
    let failed := ((flush Database.persister).runOn Setting.cutOff).2
    let retried := (flush Database.persister).runOn failed.recovered
    Setting.cutOff.environment.source.store.contents ⟨⟨"Order.notes"⟩, .filled 0⟩ .sequence =
        .ok (.sequence [some "fragile"] : Aggregate (.ofScalar .text) .unkeyed) ∧
      Setting.cutOff.environment.cached? .cachedNotes (.filled 0) =
        some (.sequence [some "fragile"] : Aggregate (.ofScalar .text) .unkeyed) ∧
      ((flush Database.persister).runOn Setting.cutOff).1 =
        .error (.cache (.unavailable "region offline")) ∧
      retried.1 = .ok .skipped ∧
      retried.2.environment.source.store.contents ⟨⟨"Order.notes"⟩, .filled 0⟩ .sequence =
        .ok (.sequence [some "fragile", some "urgent"] :
          Aggregate (.ofScalar .text) .unkeyed) ∧
      retried.2.environment.cached? .cachedNotes (.filled 0) =
        some (.sequence [some "fragile"] : Aggregate (.ofScalar .text) .unkeyed) :=
  ⟨rfl, rfl, rfl, rfl, rfl, rfl⟩

end Retry

end LazyCollections
