import LazyCollections.Proofs.Collection.Ensures

/-!
# The basic steps of collections

What each basic step of a collection does, as a rule: loading, probing, queueing and writing loaded
contents. Apart from the collection itself and from what a loader or the cache does when asked, a
step changes only what sessions have recorded.
-/

namespace LazyCollections

set_option autoImplicit false

variable {T : ElementType} {K : Scalar} {σ α β : Type}

/-- What a session was opened with, and whether it is still open. -/
def Session.terms (s : Session σ) : SessionConfig × Loader σ × Bool × SessionStatus :=
  (s.config, s.loader, s.cached, s.status)

/-- The session without what it has counted and which changes it has noted as unsaved. -/
def Session.bare (s : Session σ) : Session σ :=
  { s with owners := s.owners.map fun owner => { owner with dirty := false }, stats := {} }

theorem Session.bare_noteOwner (s : Session σ) (slot : Nat) (dirty : Bool) :
    Session.bare { s with owners := s.owners.modify slot fun owner => { owner with dirty } } =
      s.bare := by
  have howners : (s.owners.modify slot fun owner => { owner with dirty }).map
      (fun owner => { owner with dirty := false }) =
        s.owners.map fun owner => { owner with dirty := false } := by
    apply List.ext_getElem?
    intro i
    rw [List.getElem?_map, List.getElem?_map, List.getElem?_modify]
    split
    next => cases s.owners[i]? <;> rfl
    next => cases s.owners[i]? <;> rfl
  simp only [bare, howners]

theorem Session.bare_markDirty (s : Session σ) (slot : Nat) : (s.markDirty slot).bare = s.bare := by
  unfold markDirty
  split
  next => rfl
  next => exact s.bare_noteOwner slot true

namespace Environment

theorem map_onSession {α : Type} (env : Environment σ) (id : SessionId) {f : Session σ → Session σ}
    {view : Session σ → α} (hf : ∀ s, view (f s) = view s) :
    (env.onSession id f).sessions.map view = env.sessions.map view := by
  apply List.ext_getElem?
  intro i
  rw [onSession, List.getElem?_map, List.getElem?_map, List.getElem?_modify]
  split
  next => cases env.sessions[i]? <;> simp [hf]
  next => cases env.sessions[i]? <;> rfl

section Views

variable {env later : Environment σ}

theorem session?_map {view : Session σ → α}
    (h : later.sessions.map view = env.sessions.map view) (id : SessionId) :
    (later.session? id).map view = (env.session? id).map view := by
  rw [session?, session?, ← List.getElem?_map, h, List.getElem?_map]

theorem terms_of_bare (h : later.sessions.map Session.bare = env.sessions.map Session.bare) :
    later.sessions.map Session.terms = env.sessions.map Session.terms := by
  have hterms (env : Environment σ) : env.sessions.map Session.terms =
      (env.sessions.map Session.bare).map Session.terms := by
    rw [List.map_map]
    rfl
  rw [hterms later, hterms env, h]

variable (h : later.sessions.map Session.terms = env.sessions.map Session.terms)
include h

theorem isLive_of_terms (a : Attachment) : later.isLive a = env.isLive a := by
  have hview (env : Environment σ) : env.isLive a =
      ((env.session? a.session).map Session.terms).any fun terms =>
        decide (terms.2.2.2 = .active) := by
    rw [isLive]
    cases env.session? a.session <;> rfl
  rw [hview, hview, session?_map h]

theorem permitsQueue_of_terms (a : Attachment) : later.permitsQueue a = env.permitsQueue a := by
  have hview (env : Environment σ) : env.permitsQueue a =
      ((env.session? a.session).map Session.terms).any fun terms =>
        decide (terms.2.2.2 = .active) && terms.1.queueOperations := by
    rw [permitsQueue]
    cases env.session? a.session <;> rfl
  rw [hview, hview, session?_map h]

end Views

/-- Sessions may have recorded something, and nothing else has changed. -/
structure Records (env later : Environment σ) : Prop where
  sessions : later.sessions.map Session.terms = env.sessions.map Session.terms
  cache : later.cache = env.cache
  source : later.source = env.source

variable {env later last : Environment σ}

theorem Records.refl (env : Environment σ) : env.Records env :=
  ⟨rfl, rfl, rfl⟩

theorem Records.trans (h : env.Records later) (hlast : later.Records last) : env.Records last :=
  ⟨hlast.sessions.trans h.sessions, hlast.cache.trans h.cache, hlast.source.trans h.source⟩

theorem records_onSession (env : Environment σ) (id : SessionId) {f : Session σ → Session σ}
    (hf : ∀ s, (f s).terms = s.terms) : env.Records (env.onSession id f) :=
  ⟨env.map_onSession id hf, rfl, rfl⟩

theorem records_tally (env : Environment σ) (id : SessionId)
    (count : SessionStats → SessionStats) :
    env.Records (env.onSession id fun s => { s with stats := count s.stats }) :=
  env.records_onSession id fun _ => rfl

theorem records_markOwnerDirty (env : Environment σ) (a : Attachment) :
    env.Records (env.markOwnerDirty a) := by
  apply records_onSession
  intro s
  unfold Session.markDirty
  split <;> rfl

theorem records_release (env : Environment σ) (a : Attachment) (role : Role) :
    env.Records (env.release a role) :=
  env.records_onSession _ fun _ => rfl

/-- Sessions may have counted something or noted unsaved changes, and nothing else has changed. -/
structure Notes (env later : Environment σ) : Prop where
  sessions : later.sessions.map Session.bare = env.sessions.map Session.bare
  cache : later.cache = env.cache
  source : later.source = env.source

theorem Notes.refl (env : Environment σ) : env.Notes env :=
  ⟨rfl, rfl, rfl⟩

theorem Notes.trans (h : env.Notes later) (hlast : later.Notes last) : env.Notes last :=
  ⟨hlast.sessions.trans h.sessions, hlast.cache.trans h.cache, hlast.source.trans h.source⟩

theorem Notes.symm (h : env.Notes later) : later.Notes env :=
  ⟨h.sessions.symm, h.cache.symm, h.source.symm⟩

theorem Notes.withCache (h : env.Notes later) (cache : Cache) :
    Notes { env with cache } { later with cache } :=
  ⟨h.sessions, rfl, h.source⟩

theorem Notes.withSource (h : env.Notes later) (source : σ) :
    Notes { env with source } { later with source } :=
  ⟨h.sessions, h.cache, rfl⟩

theorem Notes.records (h : env.Notes later) : env.Records later :=
  ⟨terms_of_bare h.sessions, h.cache, h.source⟩

theorem notes_tally (env : Environment σ) (id : SessionId) (count : SessionStats → SessionStats) :
    env.Notes (env.onSession id fun s => { s with stats := count s.stats }) :=
  ⟨env.map_onSession id fun _ => rfl, rfl, rfl⟩

theorem notes_markOwnerDirty (env : Environment σ) (a : Attachment) :
    env.Notes (env.markOwnerDirty a) :=
  ⟨env.map_onSession _ fun s => s.bare_markDirty a.slot, rfl, rfl⟩

/-- The session of the attachment is active, has the owner, and has no collection of the role for
it. -/
def Vacant (env : Environment σ) (a : Attachment) (role : Role) : Prop :=
  ∃ s owner, env.session? a.session = some s ∧ s.status = .active ∧
    s.owners[a.slot]? = some owner ∧ owner.id = a.owner ∧ (a.slot, role) ∉ s.attached

def NoVacancy (env : Environment σ) (id : SessionId) (slot : Nat) (role : Role) : Prop :=
  ∀ a : Attachment, a.session = id → a.slot = slot → ¬env.Vacant a role

def hold (env : Environment σ) (a : Attachment) (role : Role) : Environment σ :=
  env.onSession a.session fun s => { s with attached := (a.slot, role) :: s.attached }

theorem records_hold (env : Environment σ) (a : Attachment) (role : Role) :
    env.Records (env.hold a role) :=
  env.records_onSession a.session fun _ => rfl

end Environment

namespace EnvironmentAction

variable {env : Environment σ}

def OnlyRecords (action : EnvironmentAction σ α) : Prop :=
  ∀ env, Ensures env action (fun _ => env.Records) fun _ => env.Records

theorem onlyRecords_registerOwner (id : SessionId) (owner : EntityId) :
    OnlyRecords (registerOwner id owner : EnvironmentAction σ Nat) := by
  intro env
  apply Ensures.get_bind
  refine Ensures.ofExcept_cases (fun s _ => ?_) fun _ _ => .refl env
  split
  next => exact Ensures.pure (.refl env)
  next =>
    apply Ensures.modify_bind
    exact Ensures.pure (env.records_onSession id fun _ => rfl)

/-- A collection is attached where there is a vacancy for it. Otherwise nothing changes. -/
theorem attach_ensures (id : SessionId) (slot : Nat) (role : Role) :
    Ensures env (attach id slot role)
      (fun a after => a.session = id ∧ a.slot = slot ∧ env.Vacant a role ∧ after = env.hold a role)
      fun _ after => after = env ∧ env.NoVacancy id slot role := by
  apply Ensures.get_bind
  rw [Ensures, runOn_bind, runOn_ofExcept]
  cases hsession : env.activeSession id with
  | error error =>
    simp only [true_and]
    rintro a rfl rfl ⟨s, owner, hfound, hactive, -⟩
    rw [Environment.activeSession_eq_ok.mpr ⟨hfound, hactive⟩] at hsession
    cases hsession
  | ok s =>
    obtain ⟨hfound, hactive⟩ := Environment.activeSession_eq_ok.mp hsession
    cases howner : s.owners[slot]? with
    | none =>
      simp only [howner]
      refine ⟨rfl, ?_⟩
      rintro a rfl rfl ⟨s', owner, hfound', -, howner', -⟩
      rw [hfound] at hfound'
      cases hfound'
      rw [howner] at howner'
      cases howner'
    | some owner =>
      by_cases hattached : (slot, role) ∈ s.attached
      · simp only [howner, hattached, if_true]
        refine ⟨rfl, ?_⟩
        rintro a rfl rfl ⟨s', _, hfound', -, -, -, hfree⟩
        rw [hfound] at hfound'
        cases hfound'
        exact hfree hattached
      · simp only [howner, hattached, if_false]
        exact ⟨rfl, rfl, ⟨s, owner, hfound, hactive, howner, rfl, hattached⟩, rfl⟩

theorem onlyRecords_attach (id : SessionId) (slot : Nat) (role : Role) :
    OnlyRecords (attach id slot role : EnvironmentAction σ Attachment) := by
  intro env
  refine (attach_ensures id slot role).mono ?_ ?_
  · rintro a _ ⟨-, -, -, rfl⟩
    exact env.records_hold a role
  · rintro _ _ ⟨rfl, -⟩
    exact .refl _

theorem expectShape_eq_ok {d : Descriptor} {expected : Shape}
    (h : expectShape d expected = .ok ()) : d.shape = expected := by
  unfold expectShape at h
  split at h
  next hshape => exact hshape
  next => cases h

theorem lazyCollection_ensures (id : SessionId) (slot : Nat) (d : Descriptor) (shape : Shape) :
    Ensures env (lazyCollection id slot d shape : EnvironmentAction σ (Collection T K))
      (fun c after => env.Records after ∧ ∃ a readOnly, c = .unloaded d a readOnly)
      fun _ => env.Records := by
  refine Ensures.ofExcept_cases (fun _ _ => ?_) fun _ _ => .refl env
  refine (onlyRecords_attach id slot d.role env).bind ?_
  intro a after hafter
  apply Ensures.get_bind
  exact Ensures.ofExcept_cases (fun s _ => Ensures.pure ⟨hafter, a, _, rfl⟩) fun _ _ => hafter

theorem wrap_ensures (id : SessionId) (slot : Nat) (d : Descriptor) (contents : Aggregate T K) :
    Ensures env (wrap id slot d contents : EnvironmentAction σ (Collection T K))
      (fun c after => env.Records after ∧ d.shape = contents.shape ∧
        ∃ a, c = .ofContents d a contents)
      fun _ => env.Records := by
  refine Ensures.ofExcept_cases (fun _ hshape => ?_) fun _ _ => .refl env
  have hfits := expectShape_eq_ok hshape
  refine (onlyRecords_attach id slot d.role env).bind ?_
  intro a after hafter
  split
  next =>
    apply Ensures.modify_bind
    exact Ensures.pure ⟨hafter.trans (after.records_markOwnerDirty a), hfits, a, rfl⟩
  next => exact Ensures.pure ⟨hafter, hfits, a, rfl⟩

end EnvironmentAction

def ElementType.readProbe (T : ElementType) : ElementProbe → Except Error (Option T.Element)
  | .absent => .ok none
  | .present v => T.internalizeSlot v

namespace Action.Ensures

variable {s : Setting T K σ} {Q : α → Setting T K σ → Prop} {R : β → Setting T K σ → Prop}
variable {E : Error → Setting T K σ → Prop}

theorem activeSession_cases {next : Session σ × Attachment → Action T K σ β}
    (hfound : ∀ session a, s.collection.session s.environment = .ok (session, a) →
      Ensures s (next (session, a)) R E)
    (hlost : ∀ error, s.collection.session s.environment = .error error →
      E error { s with collection := s.collection.loseSession }) :
    Ensures s (activeSession >>= next) R E := by
  cases hsession : s.collection.session s.environment with
  | ok found => exact activeSession_bind hsession (hfound found.1 found.2 hsession)
  | error error =>
    rw [Ensures, runOn_bind, runOn_activeSession_lost hsession]
    exact hlost error hsession

theorem onEnvironment_bind {inner : EnvironmentAction σ α} {next : α → Action T K σ β}
    (h : EnvironmentAction.Ensures s.environment inner
      (fun a env => Ensures ⟨s.collection, env⟩ (next a) R E)
      fun error env => E error ⟨s.collection, env⟩) :
    Ensures s (Action.onEnvironment inner >>= next) R E :=
  bind (of_environment h (fun _ _ hnext => hnext) fun _ _ herror => herror) fun _ _ hnext => hnext

/-- Loading goes through the session of the collection. What was loaded has the queue carried out on
it; a failure, of the load or of the queue, leaves the collection unloaded, with its queue. -/
theorem ensureInitialized_replaying {Q : Unit → Setting T K σ → Prop}
    (hloaded : s.collection.isLoaded = true → Q () s)
    (hunable : ∀ error, s.collection.stage ≠ .uninitialized → E error s)
    (hlost : ∀ error, s.collection.session s.environment = .error error →
      E error { s with collection := s.collection.loseSession })
    (hload : ∀ session a, s.collection.stage = .uninitialized →
      s.collection.session s.environment = .ok (session, a) →
        EnvironmentAction.Ensures s.environment
          (EnvironmentAction.loadContents session s.collection.descriptor a)
          (fun loaded env =>
            (∀ c, s.collection.replayOnto loaded = .ok c →
              ∀ later, env.Notes later → Q () ⟨c, later⟩) ∧
            ∀ error, s.collection.replayOnto loaded = .error error → E error ⟨s.collection, env⟩)
          fun error env => E error ⟨s.collection, env⟩) :
    Ensures s Action.ensureInitialized Q E := by
  apply collection_bind
  cases hstage : s.collection.stage with
  | initialized => exact pure (hloaded (by rw [Collection.isLoaded, hstage]; rfl))
  | readOnlyInitialized => exact pure (hloaded (by rw [Collection.isLoaded, hstage]; rfl))
  | initializing => exact throw (hunable _ (by rw [hstage]; decide))
  | unbound => exact throw (hunable _ (by rw [hstage]; decide))
  | uninitialized =>
    have hback : { s.collection with stage := .uninitialized } = s.collection := by
      rw [← hstage]
    refine activeSession_cases (fun session a hsession => modifyCollection_bind ?_) hlost
    -- Only loading and replaying can fail, and neither has touched the collection by then.
    refine tryCatch (F := fun error after =>
      after.collection = { s.collection with stage := .initializing } ∧
        E error ⟨s.collection, after.environment⟩) (onEnvironment_bind ?_) ?_
    · refine (hload session a hstage hsession).mono ?_ fun error env herror => ⟨rfl, herror⟩
      intro loaded env h
      refine ofExcept_cases (fun c hc => modifyCollection_bind ?_) fun error herror =>
        ⟨rfl, h.2 error herror⟩
      split
      next =>
        exact onEnvironment (h.1 c hc _
          (env.notes_tally _ fun n => { n with queuesReplayed := n.queuesReplayed + 1 }))
      next => exact pure (h.1 c hc env (.refl env))
    · rintro error ⟨c, env⟩ ⟨rfl, herror⟩
      refine modifyCollection_bind (throw ?_)
      simpa only [hback] using herror

theorem ensureInitialized {Q : Unit → Setting T K σ → Prop}
    (hloaded : s.collection.isLoaded = true → Q () s)
    (hunable : ∀ error, s.collection.stage ≠ .uninitialized → E error s)
    (hlost : ∀ error, s.collection.session s.environment = .error error →
      E error { s with collection := s.collection.loseSession })
    (hload : ∀ session a, s.collection.stage = .uninitialized →
      s.collection.session s.environment = .ok (session, a) →
        EnvironmentAction.Ensures s.environment
          (EnvironmentAction.loadContents session s.collection.descriptor a)
          (fun loaded env =>
            (∀ c, s.collection.replayOnto loaded = .ok c →
              ∀ later, env.Records later → Q () ⟨c, later⟩) ∧
            ∀ error, E error ⟨s.collection, env⟩)
          fun error env => E error ⟨s.collection, env⟩) :
    Ensures s Action.ensureInitialized Q E := by
  refine ensureInitialized_replaying hloaded hunable hlost fun session a hstage hsession => ?_
  refine (hload session a hstage hsession).mono ?_ fun _ _ h => h
  intro loaded env h
  exact ⟨fun c hc later hlater => h.1 c hc later hlater.records, fun error _ => h.2 error⟩

theorem loadedContents {Q : Aggregate T K → Setting T K σ → Prop}
    (h : Ensures s Action.ensureInitialized (fun _ s' => Q s'.collection.contents s') E) :
    Ensures s Action.loadedContents Q E := by
  refine h.bind ?_
  intro _ after hafter
  apply collection_bind
  exact pure hafter

theorem tallyProbe_bind {a : Attachment} {next : Unit → Action T K σ β}
    (h : ∀ env, s.environment.Notes env → Ensures ⟨s.collection, env⟩ (next ()) R E) :
    Ensures s (Action.onEnvironment (Action.tallyProbe a) >>= next) R E :=
  onEnvironment_bind
    (h _ (s.environment.notes_tally a.session fun n => { n with probes := n.probes + 1 }))

/-- A size is looked up only while nothing is queued. One that was noted is taken, and otherwise the
loader is asked for one, which is noted. -/
theorem fastSize {Q : Option Nat → Setting T K σ → Prop} (hunasked : Q none s)
    (hnoted : s.collection.stage = .uninitialized → s.collection.queue.isEmpty = true →
      Q s.collection.cachedSize s)
    (hlost : ∀ error, s.collection.session s.environment = .error error →
      E error { s with collection := s.collection.loseSession })
    (hask : ∀ session a, s.collection.stage = .uninitialized →
      s.collection.queue.isEmpty = true → s.collection.cachedSize = none →
        s.collection.session s.environment = .ok (session, a) →
          ∀ env, s.environment.Notes env → EnvironmentAction.Ensures env
            (.ask (session.loader.size ⟨s.collection.role, a.owner⟩))
            (fun size after => Q size ⟨{ s.collection with cachedSize := size }, after⟩)
            fun error after => E error ⟨s.collection, after⟩) :
    Ensures s Action.fastSize Q E := by
  apply collection_bind
  split
  next hguard =>
    obtain ⟨hstage, hempty⟩ := Bool.and_eq_true_iff.mp hguard
    have hstage := of_decide_eq_true hstage
    refine activeSession_cases (fun session a hsession => ?_) hlost
    simp only
    split
    next => exact pure (hnoted hstage hempty)
    next hunknown =>
      simp only [Bool.or_eq_true, not_or, Option.not_isSome_iff_eq_none] at hunknown
      refine tallyProbe_bind fun env henv => onEnvironment_bind ?_
      refine (hask session a hstage hempty hunknown.1 hsession env henv).mono ?_ fun _ _ h => h
      intro size after hsize
      apply modifyCollection_bind
      exact pure hsize
  next => exact pure hunasked

theorem probeMembership {e : T.Element} {Q : Option Bool → Setting T K σ → Prop}
    (hqueued : ∀ x, queuedMembership s.collection.descriptor.shape s.collection.queue e =
      some (if x = true then .present else .absent) → Q (some x) s)
    (hunknown : Q none s)
    (hlost : ∀ error, s.collection.session s.environment = .error error →
      E error { s with collection := s.collection.loseSession })
    (hunable : ∀ error, T.externalizeId e = .error error → E error s)
    (hask : ∀ session a id,
      queuedMembership s.collection.descriptor.shape s.collection.queue e = none →
        s.collection.session s.environment = .ok (session, a) → T.externalizeId e = .ok id →
          ∀ env, s.environment.Notes env → EnvironmentAction.Ensures env
            (.ask (session.loader.hasElement ⟨s.collection.role, a.owner⟩ id))
            (fun found after => Q found ⟨s.collection, after⟩)
            fun error after => E error ⟨s.collection, after⟩) :
    Ensures s (Action.probeMembership e) Q E := by
  apply collection_bind
  cases hanswer : queuedMembership s.collection.descriptor.shape s.collection.queue e with
  | some answer =>
    cases answer with
    | present => exact pure (hqueued true hanswer)
    | absent => exact pure (hqueued false hanswer)
    | unknown => exact pure hunknown
  | none =>
    simp only
    split
    next =>
      refine activeSession_cases (fun session a hsession => ?_) hlost
      refine ofExcept_cases (fun id hid => ?_) hunable
      refine tallyProbe_bind fun env henv => ?_
      exact of_environment (hask session a id hanswer hsession hid env henv) (fun _ _ h => h)
        fun _ _ h => h
    next => exact pure hunknown

/-- What stands under a key is known from the queue, or the loader is asked. A row that it finds has
to be read. -/
theorem probeKey {k : K.Carrier} {Q : Option (Option T.Element) → Setting T K σ → Prop}
    (hqueued : ∀ entry, queuedEntry s.collection.queue k = some entry → Q (some entry) s)
    (hunknown : Q none s)
    (hlost : ∀ error, s.collection.session s.environment = .error error →
      E error { s with collection := s.collection.loseSession })
    (hask : ∀ session a, queuedEntry s.collection.queue k = none →
      s.collection.session s.environment = .ok (session, a) →
        ∀ env, s.environment.Notes env → EnvironmentAction.Ensures env
          (.ask (session.loader.elementAt ⟨s.collection.role, a.owner⟩ (.key (K.toValue k))))
          (fun found after => (found = none → Q none ⟨s.collection, after⟩) ∧
            ∀ probe, found = some probe →
              (∀ entry, T.readProbe probe = .ok entry → Q (some entry) ⟨s.collection, after⟩) ∧
                ∀ error, T.readProbe probe = .error error → E error ⟨s.collection, after⟩)
          fun error after => E error ⟨s.collection, after⟩) :
    Ensures s (Action.probeKey k) Q E := by
  apply collection_bind
  cases hanswer : queuedEntry s.collection.queue k with
  | some entry => exact pure (hqueued entry hanswer)
  | none =>
    simp only
    split
    next =>
      refine activeSession_cases (fun session a hsession => ?_) hlost
      refine tallyProbe_bind fun env henv => onEnvironment_bind ?_
      refine (hask session a hanswer hsession env henv).mono ?_ fun _ _ h => h
      rintro found after ⟨hnone, hfound⟩
      rcases found with - | - | v
      · exact pure (hnone rfl)
      · exact pure ((hfound _ rfl).1 none rfl)
      · exact ofExcept_cases (fun entry hentry => pure ((hfound _ rfl).1 entry hentry))
          (hfound _ rfl).2
    next => exact pure hunknown

theorem enqueue_noting {op : QueuedOp T.Element K.Carrier} {Q : Unit → Setting T K σ → Prop}
    (h : ∀ later, s.environment.Notes later →
      Q () ⟨{ s.collection with queue := s.collection.queue ++ [op] }, later⟩) :
    Ensures s (Action.enqueue op) Q E := by
  cases hattachment : s.collection.attachment with
  | none =>
    have hqueued := h s.environment (.refl _)
    simp only [hattachment] at hqueued
    simp only [Ensures, Action.enqueue, runOn_bind, runOn_collection, hattachment,
      runOn_modifyCollection]
    exact hqueued
  | some a =>
    have hdirty := s.environment.notes_markOwnerDirty a
    have hplain := h _ hdirty
    have hcounted := h _ (hdirty.trans (Environment.notes_tally _ a.session
      fun n => { n with operationsQueued := n.operationsQueued + 1 }))
    simp only [Ensures, Action.enqueue, runOn_bind, runOn_collection, hattachment,
      runOn_modifyEnvironment, runOn_environment]
    cases (s.environment.markOwnerDirty a).isLive a with
    | true => exact hcounted
    | false => exact hplain

theorem enqueue {op : QueuedOp T.Element K.Carrier} {Q : Unit → Setting T K σ → Prop}
    (h : ∀ later, s.environment.Records later →
      Q () ⟨{ s.collection with queue := s.collection.queue ++ [op] }, later⟩) :
    Ensures s (Action.enqueue op) Q E :=
  enqueue_noting fun later hlater => h later hlater.records

theorem putContents_noting {contents : Aggregate T K} {Q : Unit → Setting T K σ → Prop}
    (h : ∀ later, s.environment.Notes later →
      Q () ⟨{ s.collection with contents, dirty := true }, later⟩) :
    Ensures s (Action.putContents contents) Q E := by
  cases hattachment : s.collection.attachment with
  | none =>
    have hput := h s.environment (.refl _)
    simp only [hattachment] at hput
    simp only [Ensures, Action.putContents, runOn_bind, runOn_collection, hattachment,
      runOn_modifyCollection]
    exact hput
  | some a =>
    have hput := h _ (s.environment.notes_markOwnerDirty a)
    simp only [hattachment] at hput
    simp only [Ensures, Action.putContents, runOn_bind, runOn_collection, hattachment,
      runOn_modifyEnvironment, runOn_modifyCollection]
    exact hput

theorem putContents {contents : Aggregate T K} {Q : Unit → Setting T K σ → Prop}
    (h : ∀ later, s.environment.Records later →
      Q () ⟨{ s.collection with contents, dirty := true }, later⟩) :
    Ensures s (Action.putContents contents) Q E :=
  putContents_noting fun later hlater => h later hlater.records

end Action.Ensures

end LazyCollections
