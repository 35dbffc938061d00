import LazyCollections.Proofs.Session.Registry
import LazyCollections.Proofs.Session.Sources
import LazyCollections.Proofs.Storage.Partition

/-!
# Environments that collections share

Collections that act in one environment share its sessions, its cache and its store. In two
environments that are alike for a collection, what is done for it gives the same and leaves them
alike; and it spares what other collections go by: the owners and the attachments of the sessions
other than its own, and the rows and entries under other keys.
-/

namespace LazyCollections

set_option autoImplicit false

variable {T : ElementType} {K : Scalar} {σ α β : Type}

/-- The session without its owners and attachments and without what it has counted. -/
def Session.blank (s : Session σ) : Session σ :=
  { s with owners := [], attached := [], stats := {} }

theorem Session.blank_of_terms {s s' : Session σ} (h : s'.terms = s.terms) :
    s'.blank = s.blank := by
  simp only [terms, Prod.mk.injEq] at h
  obtain ⟨hconfig, hloader, hcached, hstatus⟩ := h
  rw [blank, blank, hconfig, hloader, hcached, hstatus]

namespace Environment

def owner? (env : Environment σ) (id : SessionId) (slot : Nat) : Option Owner :=
  (env.session? id).bind fun s => s.owners[slot]?

/-- A collection of the role is attached to a session, for the owner at a slot. -/
def IsAttached (env : Environment σ) (id : SessionId) (slot : Nat) (role : Role) : Prop :=
  ∃ s, env.session? id = some s ∧ (slot, role) ∈ s.attached

theorem owner?_onSession (env : Environment σ) (id : SessionId) {f : Session σ → Session σ}
    {other : SessionId} {slot : Nat}
    (hf : id = other → ∀ s, (f s).owners[slot]? = s.owners[slot]?) :
    (env.onSession id f).owner? other slot = env.owner? other slot := by
  by_cases hid : id = other
  · subst hid
    rw [owner?, owner?, session?_onSession_self]
    cases env.session? id with
    | none => rfl
    | some s => exact hf rfl s
  · rw [owner?, owner?, session?_onSession_of_ne env hid]

theorem isAttached_onSession (env : Environment σ) (id : SessionId) {f : Session σ → Session σ}
    {other : SessionId} {slot : Nat} {role : Role}
    (hf : id = other → ∀ s, (slot, role) ∈ (f s).attached ↔ (slot, role) ∈ s.attached) :
    (env.onSession id f).IsAttached other slot role ↔ env.IsAttached other slot role := by
  by_cases hid : id = other
  · subst hid
    rw [IsAttached, IsAttached, session?_onSession_self]
    cases env.session? id with
    | none => simp
    | some s => simp [hf rfl s]
  · rw [IsAttached, IsAttached, session?_onSession_of_ne env hid]

/-- A collection finds the same under its key in both environments, and sessions on the same
terms. -/
structure Alike (flushes : Bool) (key : CollectionKey)
    (env env' : Environment Database) : Prop where
  sessions : env'.sessions.map Session.terms = env.sessions.map Session.terms
  cache : env.cache.Alike key env'.cache
  source : env.source.Alike flushes key env'.source

/-- A collection of the role that is attached leaves everything else as it was: owners, attachments,
rows and cache entries other than its own. -/
structure Spares (flushes : Bool) (role : Role) (a : Attachment)
    (env later : Environment Database) : Prop where
  sessions : later.sessions.map Session.terms = env.sessions.map Session.terms
  owners : ∀ id slot, (id, slot) ≠ (a.session, a.slot) → later.owner? id slot = env.owner? id slot
  attached : ∀ id slot other, (id, slot, other) ≠ (a.session, a.slot, role) →
    (later.IsAttached id slot other ↔ env.IsAttached id slot other)
  cache : env.cache.Spares ⟨role, a.owner⟩ later.cache
  source : env.source.Spares flushes ⟨role, a.owner⟩ later.source

/-- The region has no capacity, and all sessions load from the database. -/
structure Common (env : Environment Database) : Prop where
  onDatabase : env.OnDatabase
  unbounded : env.cache.region.capacity = none

variable {flushes : Bool} {role : Role} {a : Attachment} {key : CollectionKey}
variable {env env' later last : Environment Database}

theorem Alike.refl (env : Environment Database) : env.Alike flushes key env :=
  ⟨rfl, .refl _, .refl _⟩

theorem Spares.refl (env : Environment Database) : env.Spares flushes role a env :=
  ⟨rfl, fun _ _ _ => rfl, fun _ _ _ _ => Iff.rfl, .refl _, .refl _⟩

theorem Spares.trans (h : env.Spares flushes role a later)
    (hlast : later.Spares flushes role a last) : env.Spares flushes role a last where
  sessions := hlast.sessions.trans h.sessions
  owners id slot hne := (hlast.owners id slot hne).trans (h.owners id slot hne)
  attached id slot other hne :=
    (hlast.attached id slot other hne).trans (h.attached id slot other hne)
  cache := h.cache.trans hlast.cache
  source := h.source.trans hlast.source

/-- A collection with another key sees no difference, unless both flush and the first is refused. -/
theorem Spares.alike {flushes' : Bool} (h : env.Spares flushes role a later)
    (hkey : key ≠ ⟨role, a.owner⟩)
    (hrefuse : flushes = true → flushes' = true → env.source.refuseNext = false) :
    env.Alike flushes' key later where
  sessions := h.sessions
  cache := h.cache.alike hkey
  source :=
    { bare := h.source.bare
      rows := h.source.rows key hkey
      refuseNext := by
        intro hflushes'
        rcases h.source.refuseNext with hsame | ⟨hflushes, hrefused⟩
        · exact hsame
        · rw [hrefuse hflushes hflushes'] at hrefused
          cases hrefused }

theorem Common.spares (h : env.Common) (hspares : env.Spares flushes role a later) :
    later.Common where
  onDatabase := h.onDatabase.of_loaders (loaders_of_terms hspares.sessions)
  unbounded := (Cache.capacity_of_bare hspares.cache.bare).trans h.unbounded

theorem spares_onSession (env : Environment Database) {f : Session Database → Session Database}
    (hterms : ∀ s, (f s).terms = s.terms)
    (howners : ∀ s slot, slot ≠ a.slot → (f s).owners[slot]? = s.owners[slot]?)
    (hattached : ∀ s slot other, (slot, other) ≠ (a.slot, role) →
      ((slot, other) ∈ (f s).attached ↔ (slot, other) ∈ s.attached)) :
    env.Spares flushes role a (env.onSession a.session f) where
  sessions := env.map_onSession a.session hterms
  owners id slot hne := env.owner?_onSession a.session fun hid s =>
    howners s slot fun hslot => hne (by rw [hid, hslot])
  attached id slot other hne := env.isAttached_onSession a.session fun hid s =>
    hattached s slot other fun heq => hne (by rw [hid, heq])
  cache := .refl _
  source := .refl _

theorem spares_tally (env : Environment Database) (count : SessionStats → SessionStats) :
    env.Spares flushes role a
      (env.onSession a.session fun s => { s with stats := count s.stats }) :=
  env.spares_onSession (fun _ => rfl) (fun _ _ _ => rfl) fun _ _ _ _ => Iff.rfl

theorem spares_markOwnerDirty (env : Environment Database) (a : Attachment) :
    env.Spares flushes role a (env.markOwnerDirty a) := by
  apply spares_onSession
  · intro s
    unfold Session.markDirty
    split <;> rfl
  · intro s slot hslot
    unfold Session.markDirty
    split
    next => rfl
    next => exact List.getElem?_modify_ne _ _ hslot.symm
  · intro s slot other _
    unfold Session.markDirty
    split <;> rfl

theorem spares_release (env : Environment Database) (a : Attachment) (role : Role) :
    env.Spares flushes role a (env.release a role) := by
  apply spares_onSession
  · exact fun _ => rfl
  · exact fun _ _ _ => rfl
  · intro s slot other hne
    simp only [Session.release, List.mem_filter, decide_eq_true_eq, and_iff_left_iff_imp]
    exact fun _ => hne

theorem Alike.onSession (h : env.Alike flushes key env') (id : SessionId)
    {f : Session Database → Session Database} (hf : ∀ s, (f s).terms = s.terms) :
    (env.onSession id f).Alike flushes key (env'.onSession id f) where
  sessions := by rw [env.map_onSession id hf, env'.map_onSession id hf, h.sessions]
  cache := h.cache
  source := h.source

end Environment

/-- Started in `env` and in `env'`, the actions have the same result and leave alike environments,
and the first one spares what is not its own. -/
def EnvironmentAction.Matches (flushes : Bool) (role : Role) (a : Attachment)
    (env env' : Environment Database) (action action' : EnvironmentAction Database α) : Prop :=
  ∃ result after after', action.runOn env = (result, after) ∧
    action'.runOn env' = (result, after') ∧ after.Alike flushes ⟨role, a.owner⟩ after' ∧
    env.Spares flushes role a after

namespace EnvironmentAction.Matches

variable {flushes : Bool} {role : Role} {d : Descriptor} {a : Attachment}
variable {env env' : Environment Database}

theorem pure (h : env.Alike flushes ⟨role, a.owner⟩ env') (answer : α) :
    Matches flushes role a env env' (Pure.pure answer) (Pure.pure answer) :=
  ⟨.ok answer, env, env', rfl, rfl, h, .refl env⟩

theorem throw (h : env.Alike flushes ⟨role, a.owner⟩ env') (error : Error) :
    Matches flushes role a env env' (MonadExcept.throw error : EnvironmentAction Database α)
      (MonadExcept.throw error) :=
  ⟨.error error, env, env', rfl, rfl, h, .refl env⟩

theorem bind {action action' : EnvironmentAction Database α}
    {next next' : α → EnvironmentAction Database β} (hcommon : env.Common)
    (h : Matches flushes role a env env' action action')
    (hnext : ∀ answer after after', after.Common → after.Alike flushes ⟨role, a.owner⟩ after' →
      Matches flushes role a after after' (next answer) (next' answer)) :
    Matches flushes role a env env' (action >>= next) (action' >>= next') := by
  obtain ⟨result, after, after', hrun, hrun', halike, hspares⟩ := h
  rw [Matches, runOn_bind, runOn_bind, hrun, hrun']
  cases result with
  | error error => exact ⟨.error error, after, after', rfl, rfl, halike, hspares⟩
  | ok answer =>
    obtain ⟨result, last, last', hlast, hlast', halike, hrest⟩ :=
      hnext answer after after' (hcommon.spares hspares) halike
    exact ⟨result, last, last', hlast, hlast', halike, hspares.trans hrest⟩

theorem get_bind {next next' : Environment Database → EnvironmentAction Database β}
    (h : Matches flushes role a env env' (next env) (next' env')) :
    Matches flushes role a env env' (get >>= next) (get >>= next') := by
  rw [Matches, runOn_bind, runOn_bind]
  exact h

theorem replaceCache (h : env.Alike flushes ⟨role, a.owner⟩ env') {cache cache' : Cache}
    (halike : cache.Alike ⟨role, a.owner⟩ cache')
    (hspares : env.cache.Spares ⟨role, a.owner⟩ cache) :
    Matches flushes role a env env' (modify fun env => { env with cache })
      (modify fun env => { env with cache := cache' }) :=
  ⟨.ok (), { env with cache }, { env' with cache := cache' }, rfl, rfl,
    ⟨h.sessions, halike, h.source⟩,
    ⟨rfl, fun _ _ _ => rfl, fun _ _ _ _ => Iff.rfl, hspares, .refl _⟩⟩

theorem tally (h : env.Alike flushes ⟨role, a.owner⟩ env')
    (count : SessionStats → SessionStats) :
    Matches flushes role a env env' (EnvironmentAction.tally a.session count)
      (EnvironmentAction.tally a.session count) :=
  ⟨.ok (), _, _, rfl, rfl, h.onSession a.session fun _ => rfl, env.spares_tally count⟩

theorem ask (h : env.Alike flushes ⟨role, a.owner⟩ env')
    {question : Database → Except Error α × Database}
    (hquestion : Database.Apart flushes ⟨role, a.owner⟩ question) :
    Matches flushes role a env env' (.ask question) (.ask question) := by
  obtain ⟨answer, later, later', hrun, hrun', halike, hspares⟩ := hquestion _ _ h.source
  rw [Matches, runOn_ask, runOn_ask, hrun, hrun']
  exact ⟨answer, _, _, rfl, rfl, ⟨h.sessions, h.cache, halike⟩,
    ⟨rfl, fun _ _ _ => rfl, fun _ _ _ _ => Iff.rfl, .refl _, hspares⟩⟩

variable {session : Session Database}

theorem readCache (hcommon : env.Common) (h : env.Alike flushes (keyOf d a) env') :
    Matches flushes d.role a env env'
      (EnvironmentAction.readCache session d a :
        EnvironmentAction Database (Option (Aggregate T K)))
      (EnvironmentAction.readCache session d a) := by
  rw [EnvironmentAction.readCache]
  split
  next =>
    apply get_bind
    simp only [h.cache.get?_eq]
    cases env.cache.get? (keyOf d a) with
    | error error => exact throw h _
    | ok found =>
      cases found with
      | none => exact (tally h _).bind hcommon fun _ _ _ _ hafter => pure hafter _
      | some bytes =>
        simp only
        split
        next => exact (tally h _).bind hcommon fun _ _ _ _ hafter => pure hafter _
        next =>
          rcases h.cache.evict with ⟨error, hevict, hevict'⟩ |
            ⟨found, later, later', hevict, hevict', halike, hspares⟩
          · rw [hevict, hevict']
            exact throw h _
          · rw [hevict, hevict']
            refine (replaceCache h halike hspares).bind hcommon fun _ _ _ hcommon hafter => ?_
            exact (tally hafter _).bind hcommon fun _ _ _ _ hlast => pure hlast _
  next => exact pure h _

theorem writeCache (hcommon : env.Common) (h : env.Alike flushes (keyOf d a) env')
    (contents : Aggregate T K) :
    Matches flushes d.role a env env' (EnvironmentAction.writeCache session d a contents)
      (EnvironmentAction.writeCache session d a contents) := by
  rw [EnvironmentAction.writeCache]
  split
  next =>
    split
    next => exact pure h _
    next bytes _ =>
      apply get_bind
      rcases h.cache.put hcommon.unbounded bytes with ⟨error, hput, hput'⟩ |
        ⟨later, later', hput, hput', halike, hspares⟩
      · rw [hput, hput']
        exact pure h _
      · rw [hput, hput']
        exact (replaceCache h halike hspares).bind hcommon fun _ _ _ _ hafter => tally hafter _
  next => exact pure h _

theorem evictCache (hcommon : env.Common) (h : env.Alike flushes (keyOf d a) env') :
    Matches flushes d.role a env env' (EnvironmentAction.evictCache session d a)
      (EnvironmentAction.evictCache session d a) := by
  rw [EnvironmentAction.evictCache]
  split
  next =>
    apply get_bind
    rcases h.cache.evict with ⟨error, hevict, hevict'⟩ |
      ⟨found, later, later', hevict, hevict', halike, hspares⟩
    · rw [hevict, hevict']
      exact throw h _
    · rw [hevict, hevict']
      refine (replaceCache h halike hspares).bind hcommon fun _ _ _ _ hafter => ?_
      cases found with
      | true =>
        simp only [if_true]
        exact tally hafter _
      | false => exact pure hafter _
  next => exact pure h _

theorem loadContents (hcommon : env.Common) (h : env.Alike flushes (keyOf d a) env')
    (hloader : session.loader = Database.loader) :
    Matches flushes d.role a env env'
      (EnvironmentAction.loadContents session d a : EnvironmentAction Database (Aggregate T K))
      (EnvironmentAction.loadContents session d a) := by
  refine (readCache hcommon h).bind hcommon fun found _ _ hcommon h => ?_
  cases found with
  | some contents => exact pure h contents
  | none =>
    have hload := (Database.apart_load flushes (keyOf d a)).map
      fun feed => (feed.contents d.shape : Except Error (Aggregate T K))
    rw [hloader]
    refine (ask h hload).bind hcommon fun contents _ _ hcommon h => ?_
    refine (tally h _).bind hcommon fun _ _ _ hcommon h => ?_
    exact (writeCache hcommon h contents).bind hcommon fun _ _ _ _ h => pure h contents

end EnvironmentAction.Matches

end LazyCollections
