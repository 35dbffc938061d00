import LazyCollections.Proofs.Collection.Moves

/-!
# What collections leave of sessions

Collections make their sessions count what they do and note which owners have unsaved changes. Which
sessions are active, which owners they have and which collections are attached to them changes only
when a collection is bound or unbound.
-/

namespace LazyCollections

set_option autoImplicit false

variable {T : ElementType} {K : Scalar} {σ α β : Type} {shape : Shape}

namespace Environment

/-- The sessions are the same, but for what they have counted and noted as unsaved. -/
def SameSessions (env later : Environment σ) : Prop :=
  later.sessions.map Session.bare = env.sessions.map Session.bare

variable {env later last : Environment σ}

theorem SameSessions.refl (env : Environment σ) : env.SameSessions env :=
  rfl

theorem SameSessions.symm (h : env.SameSessions later) : later.SameSessions env :=
  Eq.symm h

theorem SameSessions.trans (h : env.SameSessions later) (hlast : later.SameSessions last) :
    env.SameSessions last :=
  Eq.trans hlast h

theorem Notes.sameSessions (h : env.Notes later) : env.SameSessions later :=
  h.sessions

theorem SameSessions.session?_eq (h : env.SameSessions later) (id : SessionId) :
    (later.session? id).map Session.bare = (env.session? id).map Session.bare :=
  session?_map h id

theorem SameSessions.isLive_eq (h : env.SameSessions later) (a : Attachment) :
    later.isLive a = env.isLive a :=
  isLive_of_terms (terms_of_bare h) a

end Environment

/-- Sessions may have counted something and the cache may have changed, but not the source. -/
structure Environment.Tended (env later : Environment σ) : Prop where
  sessions : env.SameSessions later
  source : later.source = env.source

namespace EnvironmentAction

def KeepsSessions (action : EnvironmentAction σ α) : Prop :=
  ∀ env, Ensures env action (fun _ => env.SameSessions) fun _ => env.SameSessions

def Tends (action : EnvironmentAction σ α) : Prop :=
  ∀ env, Ensures env action (fun _ => env.Tended) fun _ => env.Tended

namespace Tends

theorem pure (a : α) : Tends (Pure.pure a : EnvironmentAction σ α) :=
  fun env => Ensures.pure ⟨.refl env, rfl⟩

theorem throw (error : Error) : Tends (MonadExcept.throw error : EnvironmentAction σ α) :=
  fun env => Ensures.throw ⟨.refl env, rfl⟩

theorem bind {action : EnvironmentAction σ α} {next : α → EnvironmentAction σ β}
    (h : Tends action) (hnext : ∀ a, Tends (next a)) : Tends (action >>= next) := by
  intro env
  refine (h env).bind fun a after hafter => ?_
  have hlater {later : Environment σ} (hlater : after.Tended later) : env.Tended later :=
    ⟨hafter.sessions.trans hlater.sessions, hlater.source.trans hafter.source⟩
  exact (hnext a after).mono (fun _ _ => hlater) fun _ _ => hlater

theorem get_bind {next : Environment σ → EnvironmentAction σ β} (hnext : ∀ env, Tends (next env)) :
    Tends (MonadState.get >>= next) :=
  fun env => Ensures.get_bind (hnext env env)

theorem writeCache (cache : Cache) :
    Tends (modify fun env => { env with cache } : EnvironmentAction σ PUnit) :=
  fun env => (⟨.refl env, rfl⟩ : env.Tended { env with cache })

theorem tally (id : SessionId) (count : SessionStats → SessionStats) :
    Tends (EnvironmentAction.tally id count : EnvironmentAction σ Unit) :=
  fun env => Ensures.tally ⟨(env.notes_tally id count).sameSessions, rfl⟩

theorem keepsSessions {action : EnvironmentAction σ α} (h : Tends action) :
    KeepsSessions action :=
  fun env => (h env).mono (fun _ _ hafter => hafter.sessions) fun _ _ hafter => hafter.sessions

end Tends

namespace KeepsSessions

theorem bind {action : EnvironmentAction σ α} {next : α → EnvironmentAction σ β}
    (h : KeepsSessions action) (hnext : ∀ a, KeepsSessions (next a)) :
    KeepsSessions (action >>= next) :=
  fun env => (h env).bind fun a after hafter =>
    (hnext a after).mono (fun _ _ => hafter.trans) fun _ _ => hafter.trans

theorem ask (question : σ → Except Error α × σ) :
    KeepsSessions (EnvironmentAction.ask question) := by
  intro env
  apply Ensures.ask
  split <;> exact .refl env

end KeepsSessions

variable {session : Session σ} {d : Descriptor} {a : Attachment}

theorem tends_readCache :
    Tends (readCache session d a : EnvironmentAction σ (Option (Aggregate T K))) := by
  rw [readCache]
  split
  next =>
    apply Tends.get_bind
    intro env
    simp only
    split
    next => exact .throw _
    next => exact (Tends.tally _ _).bind fun _ => .pure _
    next =>
      split
      next => exact (Tends.tally _ _).bind fun _ => .pure _
      next =>
        split
        next => exact .throw _
        next => exact (Tends.writeCache _).bind fun _ => (Tends.tally _ _).bind fun _ => .pure _
  next => exact .pure _

theorem tends_writeCache (contents : Aggregate T K) :
    Tends (writeCache session d a contents) := by
  rw [writeCache]
  split
  next =>
    split
    next => exact .pure _
    next =>
      apply Tends.get_bind
      intro env
      split
      next => exact .pure _
      next => exact (Tends.writeCache _).bind fun _ => .tally _ _
  next => exact .pure _

theorem tends_evictCache : Tends (evictCache session d a) := by
  rw [evictCache]
  split
  next =>
    apply Tends.get_bind
    intro env
    split
    next => exact .throw _
    next =>
      apply (Tends.writeCache _).bind
      intro _
      split
      next => exact .tally _ _
      next => exact .pure _
  next => exact .pure _

theorem keepsSessions_loadContents :
    KeepsSessions (loadContents session d a : EnvironmentAction σ (Aggregate T K)) := by
  apply tends_readCache.keepsSessions.bind
  intro found
  cases found with
  | some contents => exact (Tends.pure _).keepsSessions
  | none =>
    exact (KeepsSessions.ask _).bind fun contents =>
      ((Tends.tally _ _).bind fun _ =>
        (tends_writeCache contents).bind fun _ => .pure _).keepsSessions

end EnvironmentAction

/-- The sessions are the same, but for what they have counted and noted as unsaved, and the
collection is tied to the same owner in the same role. -/
structure Setting.Standing (s₀ s : Setting T K σ) : Prop where
  sessions : s₀.environment.SameSessions s.environment
  attachment : s.collection.attachment = s₀.collection.attachment
  descriptor : s.collection.descriptor = s₀.collection.descriptor

namespace Setting.Standing

open LazyCollections.Action

variable {s : Setting T K σ} (s₀ : Setting T K σ)

theorem refl (s : Setting T K σ) : s.Standing s :=
  ⟨.refl _, rfl, rfl⟩

variable {s₀} in
theorem onEnvironment (h : s₀.Standing s) {env : Environment σ}
    (henv : s.environment.SameSessions env) : s₀.Standing { s with environment := env } :=
  ⟨h.sessions.trans henv, h.attachment, h.descriptor⟩

variable {s₀} in
theorem onCollection (h : s₀.Standing s) {c : Collection T K}
    (hattachment : c.attachment = s.collection.attachment)
    (hdescriptor : c.descriptor = s.collection.descriptor) :
    s₀.Standing { s with collection := c } :=
  ⟨h.sessions, hattachment.trans h.attachment, hdescriptor.trans h.descriptor⟩

variable {s₀} in
theorem loseSession (h : s₀.Standing s) :
    s₀.Standing { s with collection := s.collection.loseSession } :=
  h.onCollection s.collection.attachment_loseSession s.collection.descriptor_loseSession

variable {s₀} in
theorem replayed (h : s₀.Standing s) {a : Aggregate T K} {c : Collection T K}
    (hc : s.collection.replayOnto a = .ok c) : s₀.Standing { s with collection := c } :=
  h.onCollection (Collection.attachment_of_replayOnto hc) (Collection.descriptor_of_replayOnto hc)

variable {s₀} in
theorem trans {last : Setting T K σ} (h : s₀.Standing s) (hlast : s.Standing last) :
    s₀.Standing last :=
  ⟨h.sessions.trans hlast.sessions, hlast.attachment.trans h.attachment,
    hlast.descriptor.trans h.descriptor⟩

theorem keeps_collection :
    Keeps s₀.Standing (Action.collection : Action T K σ (Collection T K)) :=
  fun _ hs => hs

theorem keeps_environment :
    Keeps s₀.Standing (Action.environment : Action T K σ (Environment σ)) :=
  fun _ hs => hs

theorem keeps_modifyCollection {f : Collection T K → Collection T K}
    (hf : ∀ c, (f c).attachment = c.attachment ∧ (f c).descriptor = c.descriptor) :
    Keeps s₀.Standing (modifyCollection f : Action T K σ Unit) :=
  fun _ hs => Ensures.of_modifyCollection (hs.onCollection (hf _).1 (hf _).2)

theorem keeps_onEnvironment {action : EnvironmentAction σ α} (h : action.KeepsSessions) :
    Keeps s₀.Standing (Action.onEnvironment action : Action T K σ α) :=
  fun s hs => Ensures.of_environment (h s.environment) (fun _ _ => hs.onEnvironment)
    fun _ _ => hs.onEnvironment

theorem keeps_tally {id : SessionId} {count : SessionStats → SessionStats} :
    Keeps s₀.Standing (Action.onEnvironment (.tally id count) : Action T K σ Unit) :=
  keeps_onEnvironment s₀ (EnvironmentAction.Tends.tally id count).keepsSessions

theorem keeps_activeSession :
    Keeps s₀.Standing (activeSession : Action T K σ (Session σ × Attachment)) := by
  intro s hs
  rw [← bind_pure (activeSession : Action T K σ (Session σ × Attachment))]
  exact Ensures.activeSession_cases (fun _ _ _ => Ensures.pure hs) fun _ _ => hs.loseSession

variable {s₀} in
theorem asked (h : s₀.Standing s) {question : σ → Except Error α × σ} {env : Environment σ}
    (henv : s.environment.Notes env) :
    EnvironmentAction.Ensures env (.ask question)
      (fun _ after => s₀.Standing ⟨s.collection, after⟩)
      fun _ after => s₀.Standing ⟨s.collection, after⟩ :=
  (EnvironmentAction.KeepsSessions.ask question env).mono
    (fun _ _ hafter => h.onEnvironment (henv.sameSessions.trans hafter))
    fun _ _ hafter => h.onEnvironment (henv.sameSessions.trans hafter)

theorem keeps_fastSize : Keeps s₀.Standing (fastSize : Action T K σ (Option Nat)) := by
  intro s hs
  apply Ensures.fastSize
  · exact hs
  · exact fun _ _ => hs
  · exact fun _ _ => hs.loseSession
  · intro session a _ _ _ _ env henv
    exact (hs.asked henv).mono (fun _ _ h => h.onCollection rfl rfl) fun _ _ h => h

theorem keeps_probeMembership (e : T.Element) :
    Keeps s₀.Standing (probeMembership e : Action T K σ (Option Bool)) := by
  intro s hs
  apply Ensures.probeMembership
  · exact fun _ _ => hs
  · exact hs
  · exact fun _ _ => hs.loseSession
  · exact fun _ _ => hs
  · exact fun _ _ _ _ _ _ _ henv => hs.asked henv

theorem keeps_probeKey (k : K.Carrier) :
    Keeps s₀.Standing (probeKey k : Action T K σ (Option (Option T.Element))) := by
  intro s hs
  apply Ensures.probeKey
  · exact fun _ _ => hs
  · exact hs
  · exact fun _ _ => hs.loseSession
  · intro session a _ _ env henv
    exact (hs.asked henv).mono (fun _ _ h => ⟨fun _ => h, fun _ _ => ⟨fun _ _ => h, fun _ _ => h⟩⟩)
      fun _ _ h => h

theorem keeps_enqueue (op : QueuedOp T.Element K.Carrier) :
    Keeps s₀.Standing (enqueue op : Action T K σ Unit) :=
  fun _ hs => Ensures.enqueue_noting fun _ hlater =>
    (hs.onEnvironment hlater.sameSessions).onCollection rfl rfl

theorem keeps_putContents (contents : Aggregate T K) :
    Keeps s₀.Standing (putContents contents : Action T K σ Unit) :=
  fun _ hs => Ensures.putContents_noting fun _ hlater =>
    (hs.onEnvironment hlater.sameSessions).onCollection rfl rfl

theorem keeps_ensureInitialized :
    Keeps s₀.Standing (ensureInitialized : Action T K σ Unit) := by
  intro s hs
  apply Ensures.ensureInitialized_replaying
  · exact fun _ => hs
  · exact fun _ _ => hs
  · exact fun _ _ => hs.loseSession
  · intro session a _ _
    refine (EnvironmentAction.keepsSessions_loadContents s.environment).mono ?_ ?_
    · intro loaded env henv
      refine ⟨fun c hc later hlater => ?_, fun _ _ => hs.onEnvironment henv⟩
      exact (hs.onEnvironment (henv.trans hlater.sameSessions)).replayed hc
    · exact fun _ _ => hs.onEnvironment

variable {s₀} in
theorem of_course {b b' : Option (Aggregate T K)} (h : s₀.Course b s b') : s₀.Standing s := by
  induction h with
  | start => exact .refl _
  | fastSize _ ih => exact (keeps_fastSize s₀).after ih
  | probeMembership _ e ih => exact (keeps_probeMembership s₀ e).after ih
  | probeKey _ k ih => exact (keeps_probeKey s₀ k).after ih
  | enqueue _ op _ ih => exact (keeps_enqueue s₀ op).after ih
  | put _ contents _ _ _ ih => exact (keeps_putContents s₀ contents).after ih
  | load _ _ _ _ ih => exact (keeps_ensureInitialized s₀).after ih
  | loadFailed _ _ ih => exact (keeps_ensureInitialized s₀).after ih

theorem keeps_call (call : ShapedCall T K shape) :
    Keeps s₀.Standing (call.run : Action T K σ (Answer T K)) := by
  intro s hs
  obtain ⟨b, h⟩ := Course.reaches_call (s := s) none call
  exact Ensures.of_after (hs.trans (of_course h))

theorem keeps_disassemble : Keeps s₀.Standing (disassemble : Action T K σ CacheEntry) := by
  apply (keeps_ensureInitialized s₀).bind
  intro _
  apply (keeps_collection s₀).bind
  intro c
  exact Keeps.ofExcept _

theorem keeps_assemble (entry : CacheEntry) :
    Keeps s₀.Standing (assemble entry : Action T K σ Unit) := by
  intro s hs
  apply Ensures.collection_bind
  split
  next =>
    refine Ensures.ofExcept_cases (fun a _ => ?_) fun _ _ => hs
    refine Ensures.ofExcept_cases (fun c hc => ?_) fun _ _ => hs
    exact Ensures.of_modifyCollection (hs.replayed hc)
  next => exact Ensures.throw hs
  next => exact Ensures.throw hs

theorem keeps_persist (persister : Persister T K σ) (a : Attachment)
    (changes : ChangeSet T.Element K.Carrier) :
    Keeps s₀.Standing (persist persister a changes) := by
  apply (keeps_collection s₀).bind
  intro c
  exact (keeps_onEnvironment s₀ (.ask _)).bind fun _ => keeps_tally s₀

theorem keeps_settling {f : Collection T K → Collection T K}
    (hf : ∀ c, (f c).attachment = c.attachment ∧ (f c).descriptor = c.descriptor)
    (session : Session σ) (a : Attachment) :
    Keeps s₀.Standing (do
      modifyCollection f
      Action.onEnvironment (.evictCache session (← Action.collection).descriptor a)) := by
  apply (keeps_modifyCollection s₀ hf).bind
  intro _
  apply (keeps_collection s₀).bind
  intro c
  exact keeps_onEnvironment s₀ EnvironmentAction.tends_evictCache.keepsSessions

theorem keeps_settleQueue (session : Session σ) (a : Attachment) :
    Keeps s₀.Standing (settleQueue session a : Action T K σ Unit) := by
  refine keeps_settling s₀ ?_ session a
  exact fun _ => ⟨rfl, rfl⟩

theorem keeps_settleContents (session : Session σ) (a : Attachment) :
    Keeps s₀.Standing (settleContents session a : Action T K σ Unit) := by
  refine keeps_settling s₀ ?_ session a
  exact fun _ => ⟨rfl, rfl⟩

theorem keeps_flushQueue (persister : Persister T K σ) :
    Keeps s₀.Standing (flushQueue persister) := by
  apply (keeps_collection s₀).bind
  intro c
  split
  next => exact Keeps.pure _
  next =>
    apply (keeps_activeSession s₀).bind
    intro found
    simp only
    split
    next => exact (keeps_settleQueue s₀ _ _).map fun _ => FlushOutcome.clean
    next =>
      apply (keeps_persist s₀ persister found.2 _).bind
      intro _
      exact (keeps_settleQueue s₀ _ _).map fun _ => FlushOutcome.ofChanges _

theorem keeps_flushLoaded (persister : Persister T K σ) :
    Keeps s₀.Standing (flushLoaded persister) := by
  apply (keeps_collection s₀).bind
  intro c
  split
  next =>
    apply (keeps_environment s₀).bind
    intro found
    split
    next => exact (keeps_tally s₀).bind fun _ => Keeps.pure _
    next => exact Keeps.pure _
  next =>
    split
    next =>
      refine Keeps.bind (keeps_modifyCollection s₀ ?_) fun _ => Keeps.pure _
      exact fun _ => ⟨rfl, rfl⟩
    next =>
      apply (keeps_activeSession s₀).bind
      intro found
      apply (Keeps.ofExcept _).bind
      intro changes
      apply (keeps_persist s₀ persister found.2 changes).bind
      intro _
      exact (keeps_settleContents s₀ _ _).map fun _ => FlushOutcome.ofChanges changes

theorem keeps_flush (persister : Persister T K σ) :
    Keeps s₀.Standing (flush persister) := by
  apply (keeps_collection s₀).bind
  intro c
  split
  next => exact Keeps.pure _
  next =>
    split
    next => exact Keeps.throw _
    next => exact keeps_flushQueue s₀ persister
    next => exact keeps_flushQueue s₀ persister
    next => exact keeps_flushLoaded s₀ persister
    next => exact keeps_flushLoaded s₀ persister

end Setting.Standing

end LazyCollections
