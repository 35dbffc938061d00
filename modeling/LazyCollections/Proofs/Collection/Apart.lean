import LazyCollections.Proofs.Collection.Composed
import LazyCollections.Proofs.Session.Apart

/-!
# Collections that share an environment

A collection that is attached does the same in all environments that are alike for it, whatever
other collections have done there, and it spares what these go by. This holds of loading, probing,
queueing and writing loaded contents, so it holds of every call, and it holds of flushing to the
database.
-/

namespace LazyCollections

set_option autoImplicit false

variable {T : ElementType} {K : Scalar} {α β : Type} {shape : Shape}

theorem Environment.activeSession_cases {env env' : Environment Database}
    (h : env'.sessions.map Session.terms = env.sessions.map Session.terms) (id : SessionId) :
    (∃ error, env.activeSession id = .error error ∧ env'.activeSession id = .error error) ∨
      ∃ session session', env.activeSession id = .ok session ∧
        env'.activeSession id = .ok session' ∧ session'.blank = session.blank := by
  have hterms := session?_map h id
  rw [activeSession, activeSession]
  cases hsession : env.session? id with
  | none =>
    rw [hsession, Option.map_none, Option.map_eq_none_iff] at hterms
    rw [hterms]
    exact .inl ⟨_, rfl, rfl⟩
  | some session =>
    rw [hsession, Option.map_some, Option.map_eq_some_iff] at hterms
    obtain ⟨session', hsession', hterms⟩ := hterms
    have hstatus : session'.status = session.status := congrArg (fun terms => terms.2.2.2) hterms
    rw [hsession']
    simp only [Session.checkActive, hstatus]
    cases session.status with
    | active => exact .inr ⟨session, session', rfl, rfl, Session.blank_of_terms hterms⟩
    | closed => exact .inl ⟨_, rfl, rfl⟩
    | ended => exact .inl ⟨_, rfl, rfl⟩

/-- The same collection, attached in alike environments. -/
structure Setting.Twins (flushes : Bool) (d : Descriptor) (a : Attachment)
    (s s' : Setting T K Database) : Prop where
  collection : s'.collection = s.collection
  attachment : s.collection.attachment = some a
  descriptor : s.collection.descriptor = d
  common : s.environment.Common
  alike : s.environment.Alike flushes ⟨d.role, a.owner⟩ s'.environment

namespace Setting.Twins

variable {flushes : Bool} {d : Descriptor} {a : Attachment} {s s' : Setting T K Database}

theorem role_eq (h : s.Twins flushes d a s') : s.collection.role = d.role := by
  rw [Collection.role, h.descriptor]

theorem onCollection (h : s.Twins flushes d a s') {c : Collection T K}
    (hattachment : c.attachment = some a) (hdescriptor : c.descriptor = d) :
    Twins flushes d a { s with collection := c } { s' with collection := c } :=
  ⟨rfl, hattachment, hdescriptor, h.common, h.alike⟩

theorem onEnvironment (h : s.Twins flushes d a s') {env env' : Environment Database}
    (halike : env.Alike flushes ⟨d.role, a.owner⟩ env')
    (hspares : s.environment.Spares flushes d.role a env) :
    Twins flushes d a { s with environment := env } { s' with environment := env' } :=
  ⟨h.collection, h.attachment, h.descriptor, h.common.spares hspares, halike⟩

theorem session_cases (h : s.Twins flushes d a s') :
    (∃ error, s.collection.session s.environment = .error error ∧
      s'.collection.session s'.environment = .error error) ∨
      ∃ session session', s.collection.session s.environment = .ok (session, a) ∧
        s'.collection.session s'.environment = .ok (session', a) ∧
        session'.blank = session.blank ∧ session.loader = Database.loader := by
  rw [h.collection]
  rcases Environment.activeSession_cases h.alike.sessions a.session with
    ⟨error, hactive, hactive'⟩ | ⟨session, session', hactive, hactive', hblank⟩
  · refine .inl ⟨error, ?_, ?_⟩ <;>
      simp only [Collection.session, h.attachment, hactive, hactive'] <;> rfl
  · have hsession : s.collection.session s.environment = .ok (session, a) := by
      simp only [Collection.session, h.attachment, hactive]
      rfl
    refine .inr ⟨session, session', hsession, ?_, hblank, h.common.onDatabase.loader_eq hsession⟩
    simp only [Collection.session, h.attachment, hactive']
    rfl

end Setting.Twins

/-- Started with the same collection, the actions have the same result and leave it the same, and
the first one spares what is not its own. -/
def Action.Matches (flushes : Bool) (d : Descriptor) (a : Attachment) (s s' : Setting T K Database)
    (action action' : Action T K Database α) : Prop :=
  ∃ result after after', action.runOn s = (result, after) ∧ action'.runOn s' = (result, after') ∧
    after.Twins flushes d a after' ∧
    s.environment.Spares flushes d.role a after.environment

/-- The action does the same for a collection that is attached wherever it is attached in alike
environments, and it spares what is not its own. -/
def Action.Apart (flushes : Bool) (d : Descriptor) (a : Attachment)
    (action : Action T K Database α) : Prop :=
  ∀ s s', Setting.Twins flushes d a s s' → Matches flushes d a s s' action action

namespace Action.Matches

variable {flushes : Bool} {d : Descriptor} {a : Attachment} {s s' : Setting T K Database}

theorem pure (h : s.Twins flushes d a s') (answer : α) :
    Matches flushes d a s s' (Pure.pure answer) (Pure.pure answer) :=
  ⟨.ok answer, s, s', rfl, rfl, h, .refl _⟩

theorem throw (h : s.Twins flushes d a s') (error : Error) :
    Matches flushes d a s s' (MonadExcept.throw error : Action T K Database α)
      (MonadExcept.throw error) :=
  ⟨.error error, s, s', rfl, rfl, h, .refl _⟩

theorem ofExcept (h : s.Twins flushes d a s') (result : Except Error α) :
    Matches flushes d a s s' (liftM result) (liftM result) :=
  ⟨result, s, s', runOn_ofExcept _ _, runOn_ofExcept _ _, h, .refl _⟩

theorem ofExcept_bind {result : Except Error α} {next : α → Action T K Database β}
    (h : s.Twins flushes d a s')
    (hnext : ∀ answer, result = .ok answer →
      Matches flushes d a s s' (next answer) (next answer)) :
    Matches flushes d a s s' ((liftM result : Action T K Database α) >>= next)
      ((liftM result : Action T K Database α) >>= next) := by
  rw [Matches, runOn_bind, runOn_bind, runOn_ofExcept, runOn_ofExcept]
  cases hresult : result with
  | error error => exact ⟨.error error, s, s', rfl, rfl, h, .refl _⟩
  | ok answer => exact hnext answer hresult

theorem bind {action action' : Action T K Database α} {next next' : α → Action T K Database β}
    (h : Matches flushes d a s s' action action')
    (hnext : ∀ answer after after', Setting.Twins flushes d a after after' →
      Matches flushes d a after after' (next answer) (next' answer)) :
    Matches flushes d a s s' (action >>= next) (action' >>= next') := by
  obtain ⟨result, after, after', hrun, hrun', htwins, hspares⟩ := h
  rw [Matches, runOn_bind, runOn_bind, hrun, hrun']
  cases result with
  | error error => exact ⟨.error error, after, after', rfl, rfl, htwins, hspares⟩
  | ok answer =>
    obtain ⟨result, last, last', hlast, hlast', htwins, hrest⟩ := hnext answer after after' htwins
    exact ⟨result, last, last', hlast, hlast', htwins, hspares.trans hrest⟩

theorem map {action action' : Action T K Database α} (f : α → β)
    (h : Matches flushes d a s s' action action') :
    Matches flushes d a s s' (do return f (← action)) (do return f (← action')) :=
  h.bind fun _ _ _ hafter => pure hafter _

theorem tryCatch {action action' : Action T K Database α}
    {handle handle' : Error → Action T K Database α}
    (h : Matches flushes d a s s' action action')
    (hhandle : ∀ error after after', Setting.Twins flushes d a after after' →
      Matches flushes d a after after' (handle error) (handle' error)) :
    Matches flushes d a s s' (tryCatch action handle) (tryCatch action' handle') := by
  obtain ⟨result, after, after', hrun, hrun', htwins, hspares⟩ := h
  rw [Matches, runOn_tryCatch, runOn_tryCatch, hrun, hrun']
  cases result with
  | ok answer => exact ⟨.ok answer, after, after', rfl, rfl, htwins, hspares⟩
  | error error =>
    obtain ⟨result, last, last', hlast, hlast', htwins, hrest⟩ :=
      hhandle error after after' htwins
    exact ⟨result, last, last', hlast, hlast', htwins, hspares.trans hrest⟩

theorem collection_bind {next : Collection T K → Action T K Database β}
    (h : s.Twins flushes d a s')
    (hnext : Matches flushes d a s s' (next s.collection) (next s.collection)) :
    Matches flushes d a s s' (collection >>= next) (collection >>= next) := by
  rw [Matches, runOn_bind, runOn_bind, runOn_collection, runOn_collection, h.collection]
  exact hnext

theorem environment_bind {next next' : Environment Database → Action T K Database β}
    (h : Matches flushes d a s s' (next s.environment) (next' s'.environment)) :
    Matches flushes d a s s' (environment >>= next) (environment >>= next') := by
  rw [Matches, runOn_bind, runOn_bind]
  exact h

theorem modifyCollection (h : s.Twins flushes d a s') {f : Collection T K → Collection T K}
    (hattachment : (f s.collection).attachment = some a)
    (hdescriptor : (f s.collection).descriptor = d) :
    Matches flushes d a s s' (Action.modifyCollection f) (Action.modifyCollection f) := by
  refine ⟨.ok (), { s with collection := f s.collection }, { s' with collection := f s.collection },
    rfl, ?_, h.onCollection hattachment hdescriptor, .refl _⟩
  rw [runOn_modifyCollection, h.collection]

theorem modifyCollection_bind (h : s.Twins flushes d a s') {f : Collection T K → Collection T K}
    {next : Unit → Action T K Database β} (hattachment : (f s.collection).attachment = some a)
    (hdescriptor : (f s.collection).descriptor = d)
    (hnext : ∀ after after', Setting.Twins flushes d a after after' →
      Matches flushes d a after after' (next ()) (next ())) :
    Matches flushes d a s s' (Action.modifyCollection f >>= next)
      (Action.modifyCollection f >>= next) :=
  (modifyCollection h hattachment hdescriptor).bind fun _ => hnext

theorem onEnvironment (h : s.Twins flushes d a s') {action action' : EnvironmentAction Database α}
    (haction : EnvironmentAction.Matches flushes d.role a s.environment s'.environment
      action action') :
    Matches flushes d a s s' (Action.onEnvironment action) (Action.onEnvironment action') := by
  obtain ⟨result, env, env', hrun, hrun', halike, hspares⟩ := haction
  rw [Matches, runOn_onEnvironment, runOn_onEnvironment, hrun, hrun']
  exact ⟨result, _, _, rfl, rfl, h.onEnvironment halike hspares, hspares⟩

theorem tally (h : s.Twins flushes d a s') (count : SessionStats → SessionStats) :
    Matches flushes d a s s' (Action.onEnvironment (.tally a.session count))
      (Action.onEnvironment (.tally a.session count)) :=
  onEnvironment h (.tally h.alike count)

theorem ask (h : s.Twins flushes d a s') {question : Database → Except Error α × Database}
    (hquestion : Database.Apart flushes ⟨d.role, a.owner⟩ question) :
    Matches flushes d a s s' (Action.onEnvironment (.ask question))
      (Action.onEnvironment (.ask question)) :=
  onEnvironment h (.ask h.alike hquestion)

theorem markOwnerDirty (h : s.Twins flushes d a s') :
    Matches flushes d a s s' (modifyEnvironment fun env => env.markOwnerDirty a)
      (modifyEnvironment fun env => env.markOwnerDirty a) := by
  have hterms (session : Session Database) :
      (session.markDirty a.slot).terms = session.terms := by
    unfold Session.markDirty
    split <;> rfl
  have hspares : s.environment.Spares flushes d.role a (s.environment.markOwnerDirty a) :=
    s.environment.spares_markOwnerDirty a
  exact ⟨.ok (), _, _, rfl, rfl, h.onEnvironment (h.alike.onSession a.session hterms) hspares,
    hspares⟩

/-- Only the terms of a session that is found may be used. -/
theorem activeSession_bind (h : s.Twins flushes d a s')
    {next : Session Database × Attachment → Action T K Database β}
    (hblank : ∀ session, next (session.blank, a) = next (session, a))
    (hnext : ∀ session, session.loader = Database.loader →
      Matches flushes d a s s' (next (session, a)) (next (session, a))) :
    Matches flushes d a s s' (activeSession >>= next) (activeSession >>= next) := by
  rcases h.session_cases with ⟨error, hlost, hlost'⟩ |
    ⟨session, session', hfound, hfound', hsame, hloader⟩
  · rw [Matches, runOn_bind, runOn_bind, runOn_activeSession_lost hlost,
      runOn_activeSession_lost hlost', h.collection]
    exact ⟨.error error, _, _, rfl, rfl,
      h.onCollection ((Collection.attachment_loseSession _).trans h.attachment)
        ((Collection.descriptor_loseSession _).trans h.descriptor), .refl _⟩
  · have heq : next (session', a) = next (session, a) := by
      rw [← hblank session', hsame, hblank session]
    rw [Matches, runOn_bind, runOn_bind, runOn_activeSession hfound, runOn_activeSession hfound']
    simp only [heq]
    exact hnext session hloader

end Action.Matches

namespace Action.Apart

variable {flushes : Bool} {d : Descriptor} {a : Attachment}

theorem mayQueue : Apart flushes d a (mayQueue : Action T K Database Bool) := by
  intro s s' h
  have hmay : s.collection.mayQueue s'.environment = s.collection.mayQueue s.environment := by
    simp only [Collection.mayQueue, h.attachment, Option.any_some,
      Environment.permitsQueue_of_terms h.alike.sessions]
  refine ⟨.ok (s.collection.mayQueue s.environment), s, s', rfl, ?_, h, .refl _⟩
  change (Except.ok (s'.collection.mayQueue s'.environment), s') = _
  rw [h.collection, hmay]

theorem fastSize : Apart flushes d a (fastSize : Action T K Database (Option Nat)) := by
  intro s s' h
  apply Matches.collection_bind h
  split
  next =>
    refine Matches.activeSession_bind h (fun _ => rfl) fun session hloader => ?_
    simp only
    split
    next => exact .pure h _
    next =>
      rw [hloader, h.role_eq]
      refine (Matches.tally h _).bind fun _ _ _ h => ?_
      refine (Matches.ask h (Database.apart_size flushes _)).bind fun size _ _ h => ?_
      exact .modifyCollection_bind h h.attachment h.descriptor fun _ _ h => .pure h size
  next => exact .pure h _

theorem probeMembership (e : T.Element) :
    Apart flushes d a (probeMembership e : Action T K Database (Option Bool)) := by
  intro s s' h
  apply Matches.collection_bind h
  split
  next => exact .pure h _
  next => exact .pure h _
  next => exact .pure h _
  next =>
    split
    next =>
      refine Matches.activeSession_bind h (fun _ => rfl) fun session hloader => ?_
      simp only
      rw [hloader, h.role_eq]
      refine (Matches.ofExcept h _).bind fun id _ _ h => ?_
      refine (Matches.tally h _).bind fun _ _ _ h => ?_
      exact .ask h (Database.apart_hasElement flushes _ id)
    next => exact .pure h _

theorem probeKey (k : K.Carrier) :
    Apart flushes d a (probeKey k : Action T K Database (Option (Option T.Element))) := by
  intro s s' h
  apply Matches.collection_bind h
  split
  next => exact .pure h _
  next =>
    split
    next =>
      refine Matches.activeSession_bind h (fun _ => rfl) fun session hloader => ?_
      simp only
      rw [hloader, h.role_eq]
      refine (Matches.tally h _).bind fun _ _ _ h => ?_
      refine (Matches.ask h (Database.apart_elementAt flushes _ _)).bind fun probe _ _ h => ?_
      rcases probe with - | - | v
      · exact .pure h _
      · exact .pure h _
      · exact (Matches.ofExcept h _).map some
    next => exact .pure h _

theorem enqueue (op : QueuedOp T.Element K.Carrier) :
    Apart flushes d a (enqueue op : Action T K Database Unit) := by
  intro s s' h
  have hqueue {s s' : Setting T K Database} (h : s.Twins flushes d a s') :
      Matches flushes d a s s'
        (modifyCollection fun c => { c with queue := c.queue ++ [op] })
        (modifyCollection fun c => { c with queue := c.queue ++ [op] }) :=
    .modifyCollection h h.attachment h.descriptor
  apply Matches.collection_bind h
  simp only [h.attachment]
  refine (Matches.markOwnerDirty h).bind fun _ s s' h => ?_
  apply Matches.environment_bind
  rw [Environment.isLive_of_terms h.alike.sessions]
  split
  next => exact (Matches.tally h _).bind fun _ _ _ h => hqueue h
  next => exact hqueue h

theorem putContents (contents : Aggregate T K) :
    Apart flushes d a (putContents contents : Action T K Database Unit) := by
  intro s s' h
  refine .modifyCollection_bind h h.attachment h.descriptor fun _ _ h => ?_
  apply Matches.collection_bind h
  rw [h.attachment]
  exact .markOwnerDirty h

theorem ensureInitialized :
    Apart flushes d a (ensureInitialized : Action T K Database Unit) := by
  intro s s' h
  apply Matches.collection_bind h
  split
  next => exact .pure h _
  next => exact .pure h _
  next => exact .throw h _
  next => exact .throw h _
  next =>
    have hattachment := h.attachment
    have hdescriptor := h.descriptor
    refine Matches.activeSession_bind h (fun _ => rfl) fun session hloader => ?_
    refine .modifyCollection_bind h hattachment hdescriptor fun _ _ h => ?_
    refine .tryCatch ?_ fun error _ _ h =>
      .modifyCollection_bind h h.attachment h.descriptor fun _ _ h => .throw h error
    rw [hdescriptor]
    refine (Matches.onEnvironment h (.loadContents h.common h.alike hloader)).bind
      fun loaded _ _ h => ?_
    refine .ofExcept_bind h fun c hc => ?_
    refine .modifyCollection_bind h ((Collection.attachment_of_replayOnto hc).trans hattachment)
      ((Collection.descriptor_of_replayOnto hc).trans hdescriptor) fun _ _ h => ?_
    split
    next => exact .tally h _
    next => exact .pure h _

theorem of_composed {action : Action T K Database α} (h : action.Composed) :
    Apart flushes d a action := by
  induction h with
  | pure answer => exact fun _ _ h => .pure h answer
  | throw error => exact fun _ _ h => .throw h error
  | ofExcept result => exact fun _ _ h => .ofExcept h result
  | bind _ _ first second =>
    exact fun s s' h => (first s s' h).bind fun answer after after' => second answer after after'
  | collection =>
    intro s s' h
    refine ⟨.ok s.collection, s, s', rfl, ?_, h, .refl _⟩
    rw [runOn_collection, h.collection]
  | mayQueue => exact mayQueue
  | fastSize => exact fastSize
  | probeMembership e => exact probeMembership e
  | probeKey k => exact probeKey k
  | enqueue op => exact enqueue op
  | ensureInitialized => exact ensureInitialized
  | putContents contents => exact putContents contents

theorem call (call : ShapedCall T K shape) :
    Apart flushes d a (call.run : Action T K Database (Answer T K)) :=
  of_composed (.call call)

theorem disassemble : Apart flushes d a (disassemble : Action T K Database CacheEntry) :=
  of_composed (Composed.ensureInitialized.bind fun _ =>
    Composed.collection.bind fun _ => .ofExcept _)

theorem assemble (entry : CacheEntry) :
    Apart flushes d a (assemble entry : Action T K Database Unit) := by
  intro s s' h
  apply Matches.collection_bind h
  split
  next =>
    refine Matches.ofExcept_bind h fun contents _ => ?_
    refine Matches.ofExcept_bind h fun c hc => ?_
    apply Matches.modifyCollection h
    · exact (Collection.attachment_of_replayOnto hc).trans h.attachment
    · exact (Collection.descriptor_of_replayOnto hc).trans h.descriptor
  next => exact .throw h _
  next => exact .throw h _

theorem settling {f : Collection T K → Collection T K}
    (hf : ∀ c, (f c).attachment = c.attachment ∧ (f c).descriptor = c.descriptor)
    (session : Session Database) :
    Apart flushes d a (do
      modifyCollection f
      Action.onEnvironment (.evictCache session (← Action.collection).descriptor a)) := by
  intro s s' h
  refine .modifyCollection_bind h ((hf _).1.trans h.attachment) ((hf _).2.trans h.descriptor)
    fun _ _ h => ?_
  apply Matches.collection_bind h
  rw [h.descriptor]
  exact .onEnvironment h (.evictCache h.common h.alike)

theorem settleQueue (session : Session Database) :
    Apart flushes d a (settleQueue session a : Action T K Database Unit) := by
  refine settling ?_ session
  exact fun _ => ⟨rfl, rfl⟩

theorem settleContents (session : Session Database) :
    Apart flushes d a (settleContents session a : Action T K Database Unit) := by
  refine settling ?_ session
  exact fun _ => ⟨rfl, rfl⟩

theorem persist (changes : ChangeSet T.Element K.Carrier) :
    Apart true d a (persist Database.persister a changes) := by
  intro s s' h
  apply Matches.collection_bind h
  rw [h.descriptor]
  refine (Matches.ask h (Database.apart_persister a.owner d changes)).bind fun _ _ _ h => ?_
  exact .tally h _

theorem flushQueue : Apart true d a (flushQueue (Database.persister (T := T) (K := K))) := by
  intro s s' h
  apply Matches.collection_bind h
  split
  next => exact .pure h _
  next =>
    refine Matches.activeSession_bind h (fun _ => rfl) fun session _ => ?_
    simp only
    split
    next => exact (settleQueue session _ _ h).map fun _ => FlushOutcome.clean
    next =>
      refine (persist _ _ _ h).bind fun _ _ _ h => ?_
      exact (settleQueue session _ _ h).map fun _ => FlushOutcome.ofChanges _

theorem flushLoaded : Apart true d a (flushLoaded (Database.persister (T := T) (K := K))) := by
  intro s s' h
  apply Matches.collection_bind h
  split
  next =>
    apply Matches.environment_bind
    rcases h.session_cases with ⟨error, hlost, hlost'⟩ |
      ⟨session, session', hfound, hfound', -⟩
    · rw [h.collection] at hlost'
      rw [hlost, hlost']
      exact .pure h _
    · rw [h.collection] at hfound'
      rw [hfound, hfound']
      exact (Matches.tally h _).bind fun _ _ _ h => .pure h _
  next =>
    split
    next =>
      exact .modifyCollection_bind h h.attachment h.descriptor fun _ _ h => .pure h _
    next =>
      refine Matches.activeSession_bind h (fun _ => rfl) fun session _ => ?_
      refine (Matches.ofExcept h _).bind fun changes _ _ h => ?_
      refine (persist changes _ _ h).bind fun _ _ _ h => ?_
      exact (settleContents session _ _ h).map fun _ => FlushOutcome.ofChanges changes

theorem flush : Apart true d a (flush (Database.persister (T := T) (K := K))) := by
  intro s s' h
  apply Matches.collection_bind h
  split
  next => exact .pure h _
  next =>
    split
    next => exact .throw h _
    next => exact flushQueue s s' h
    next => exact flushQueue s s' h
    next => exact flushLoaded s s' h
    next => exact flushLoaded s s' h

end Action.Apart

end LazyCollections
