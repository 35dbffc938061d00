import LazyCollections.Proofs.Session.Standing

/-!
# Work without a load

A collection that may queue its changes is not loaded by them. In an extra-lazy role a set or a map
has to know of an element or a key before it queues, and its queue or a probe tells. All of this
goes the same way, and leaves the same, whatever a load would deliver and whether or not the cache
can be read: nothing is loaded, and nothing is read from the cache.
-/

namespace LazyCollections

set_option autoImplicit false

variable {T : ElementType} {K : Scalar} {σ α β : Type} {shape : Shape}

section Sealed

variable (load : CollectionKey → σ → Feed × σ) (fault : RegionError)

/-- The session with another way of loading. -/
def Session.sealed (s : Session σ) : Session σ :=
  { s with loader := { s.loader with load } }

/-- The cache with a failure in place of whatever is read from it. -/
def Cache.sealed (cache : Cache) : Cache :=
  { cache with faults := { cache.faults with get := some fault } }

def Environment.sealed (env : Environment σ) : Environment σ where
  sessions := env.sessions.map (Session.sealed load)
  cache := env.cache.sealed fault
  source := env.source

def Setting.sealed (s : Setting T K σ) : Setting T K σ :=
  { s with environment := s.environment.sealed load fault }

theorem Cache.evict_sealed (cache : Cache) (key : CollectionKey) :
    (cache.sealed fault).evict key = (cache.evict key).map fun r => (r.1, r.2.sealed fault) := by
  obtain ⟨region, get, put, evict, clear⟩ := cache
  cases evict with
  | some error => rfl
  | none =>
    simp only [Cache.evict, sealed, guarded]
    cases region.evict key <;> rfl

theorem Environment.session?_sealed (env : Environment σ) (id : SessionId) :
    (env.sealed load fault).session? id = (env.session? id).map (Session.sealed load) :=
  List.getElem?_map

theorem Environment.onSession_sealed (env : Environment σ) (id : SessionId)
    {f : Session σ → Session σ} (hf : ∀ s, f (s.sealed load) = (f s).sealed load) :
    (env.sealed load fault).onSession id f = (env.onSession id f).sealed load fault := by
  have hsessions : (env.sessions.map (Session.sealed load)).modify id.index f =
      (env.sessions.modify id.index f).map (Session.sealed load) := by
    apply List.ext_getElem?
    intro i
    rw [List.getElem?_modify, List.getElem?_map, List.getElem?_map, List.getElem?_modify]
    cases env.sessions[i]? with
    | none => rfl
    | some s => by_cases hi : id.index = i <;> simp [hi, hf]
  simp only [onSession, sealed, hsessions]

theorem Environment.isLive_sealed (env : Environment σ) (a : Attachment) :
    (env.sealed load fault).isLive a = env.isLive a := by
  rw [isLive, isLive, session?_sealed, Option.any_map]
  rfl

theorem Environment.permitsQueue_sealed (env : Environment σ) (a : Attachment) :
    (env.sealed load fault).permitsQueue a = env.permitsQueue a := by
  rw [permitsQueue, permitsQueue, session?_sealed, Option.any_map]
  rfl

theorem Environment.markOwnerDirty_sealed (env : Environment σ) (a : Attachment) :
    (env.sealed load fault).markOwnerDirty a = (env.markOwnerDirty a).sealed load fault := by
  apply onSession_sealed
  intro s
  unfold Session.markDirty
  rw [apply_ite (Session.sealed load)]
  rfl

theorem Collection.session_sealed (c : Collection T K) {env : Environment σ}
    {session : Session σ} {a : Attachment} (h : c.session env = .ok (session, a)) :
    c.session (env.sealed load fault) = .ok (session.sealed load, a) := by
  obtain ⟨hattachment, hfound, hactive⟩ := session_eq_ok h
  refine session_eq hattachment ?_ hactive
  rw [Environment.session?_sealed, hfound, Option.map_some]

end Sealed

/-- Started in `env`, the action gives and leaves the same whatever a load would deliver and
whether or not the cache can be read. -/
def EnvironmentAction.BlindFrom (env : Environment σ) (action : EnvironmentAction σ α) : Prop :=
  ∀ load fault, action.runOn (env.sealed load fault) =
    ((action.runOn env).1, (action.runOn env).2.sealed load fault)

namespace EnvironmentAction.BlindFrom

variable (env : Environment σ)

theorem tally (id : SessionId) (count : SessionStats → SessionStats) :
    BlindFrom env (EnvironmentAction.tally id count) := by
  intro load fault
  have hsealed := env.onSession_sealed load fault id
    (f := fun s => { s with stats := count s.stats }) fun _ => rfl
  exact congrArg (Prod.mk (Except.ok ())) hsealed

theorem ask (question : σ → Except Error α × σ) :
    BlindFrom env (EnvironmentAction.ask question) := by
  intro load fault
  rw [runOn_ask, runOn_ask]
  rfl

theorem evictCache (session : Session σ) (d : Descriptor) (a : Attachment) :
    BlindFrom env (EnvironmentAction.evictCache session d a) := by
  intro load fault
  rw [EnvironmentAction.evictCache]
  split
  next =>
    simp only [runOn_bind, runOn_get]
    have hevict : (env.sealed load fault).cache.evict (keyOf d a) =
        (env.cache.evict (keyOf d a)).map fun r => (r.1, r.2.sealed fault) :=
      env.cache.evict_sealed fault (keyOf d a)
    rw [hevict]
    cases env.cache.evict (keyOf d a) with
    | error error => rfl
    | ok r =>
      obtain ⟨found, cache⟩ := r
      simp only [Except.map, runOn_bind, runOn_modify]
      cases found with
      | true =>
        exact tally { env with cache } a.session
          (fun n => { n with cacheEvictions := n.cacheEvictions + 1 }) load fault
      | false => rfl
  next => rfl

end EnvironmentAction.BlindFrom

/-- Started in `s`, the action leaves `Q` or fails with `E`, and it gives and leaves the same
whatever a load would deliver and whether or not the cache can be read. -/
structure Action.Unread (s : Setting T K σ) (action : Action T K σ α)
    (Q : α → Setting T K σ → Prop) (E : Setting T K σ → Prop) : Prop where
  ensures : Ensures s action Q fun _ => E
  blind : ∀ load fault, action.runOn (s.sealed load fault) =
    ((action.runOn s).1, (action.runOn s).2.sealed load fault)

namespace Action.Unread

variable {s : Setting T K σ} {action : Action T K σ α}
variable {Q Q' : α → Setting T K σ → Prop} {R : β → Setting T K σ → Prop}
variable {E : Setting T K σ → Prop}

theorem pure {a : α} (h : Q a s) : Unread s (Pure.pure a) Q E :=
  ⟨Ensures.pure h, fun _ _ => rfl⟩

theorem bind {next : α → Action T K σ β} (h : Unread s action Q E)
    (hnext : ∀ a after, Q a after → Unread after (next a) R E) :
    Unread s (action >>= next) R E where
  ensures := h.ensures.bind fun a after hafter => (hnext a after hafter).ensures
  blind load fault := by
    have hensures := h.ensures
    rw [Ensures] at hensures
    rw [runOn_bind, runOn_bind, h.blind load fault]
    cases hrun : action.runOn s with
    | mk result after =>
      rw [hrun] at hensures
      cases result with
      | ok a => exact (hnext a after hensures).blind load fault
      | error error => rfl

theorem post (h : Unread s action Q E) (hQ : ∀ a after, Q a after → Q' a after) :
    Unread s action Q' E :=
  ⟨h.ensures.post hQ, h.blind⟩

theorem map (f : α → β) (h : Unread s action (fun _ => E) E) :
    Unread s (do return f (← action)) (fun _ => E) E :=
  h.bind fun _ _ hafter => pure hafter

theorem ofExcept {result : Except Error α} (hok : ∀ a, result = .ok a → Q a s)
    (herror : ∀ error, result = .error error → E s) : Unread s (liftM result) Q E where
  ensures := by
    rw [Ensures, runOn_ofExcept]
    cases result with
    | ok a => exact hok a rfl
    | error error => exact herror error rfl
  blind load fault := by rw [runOn_ofExcept, runOn_ofExcept]

theorem collection_bind {next : Collection T K → Action T K σ β}
    (h : Unread s (next s.collection) R E) : Unread s (collection >>= next) R E where
  ensures := Ensures.collection_bind h.ensures
  blind load fault := by
    rw [runOn_bind, runOn_collection, runOn_bind, runOn_collection]
    exact h.blind load fault

/-- The loader of a session is of use for probes only. -/
theorem activeSession_bind {session : Session σ} {a : Attachment}
    {next : Session σ × Attachment → Action T K σ β}
    (hsession : s.collection.session s.environment = .ok (session, a))
    (hnext : ∀ load, next (session.sealed load, a) = next (session, a))
    (h : Unread s (next (session, a)) R E) : Unread s (activeSession >>= next) R E where
  ensures := Ensures.activeSession_bind hsession h.ensures
  blind load fault := by
    have hsealed : (s.sealed load fault).collection.session (s.sealed load fault).environment =
        .ok (session.sealed load, a) := s.collection.session_sealed load fault hsession
    rw [runOn_bind, runOn_activeSession hsealed, runOn_bind, runOn_activeSession hsession]
    simp only [hnext]
    exact h.blind load fault

theorem onEnvironment {inner : EnvironmentAction σ α} (h : inner.BlindFrom s.environment)
    (hensures : Ensures s (Action.onEnvironment inner) Q fun _ => E) :
    Unread s (Action.onEnvironment inner) Q E where
  ensures := hensures
  blind load fault := by
    rw [runOn_onEnvironment, runOn_onEnvironment]
    change ((inner.runOn (s.environment.sealed load fault)).1, _) = _
    simp only [Setting.sealed, h load fault]

theorem modifyCollection {f : Collection T K → Collection T K} {Q : Unit → Setting T K σ → Prop}
    (h : Q () { s with collection := f s.collection }) :
    Unread s (Action.modifyCollection f) Q E :=
  ⟨Ensures.of_modifyCollection h, fun _ _ => rfl⟩

theorem enqueue {op : QueuedOp T.Element K.Carrier} {Q : Unit → Setting T K σ → Prop}
    (h : ∀ later, s.environment.Notes later →
      Q () ⟨{ s.collection with queue := s.collection.queue ++ [op] }, later⟩) :
    Unread s (Action.enqueue op) Q E where
  ensures := Ensures.enqueue_noting h
  blind load fault := by
    cases hattachment : s.collection.attachment with
    | none =>
      simp only [Action.enqueue, runOn_bind, runOn_collection, hattachment,
        runOn_modifyCollection, Setting.sealed]
    | some a =>
      have hmarked : (s.environment.sealed load fault).markOwnerDirty a =
          (s.environment.markOwnerDirty a).sealed load fault :=
        s.environment.markOwnerDirty_sealed load fault a
      simp only [Action.enqueue, runOn_bind, runOn_collection, hattachment,
        runOn_modifyEnvironment, runOn_environment, Setting.sealed, hmarked,
        Environment.isLive_sealed]
      cases (s.environment.markOwnerDirty a).isLive a with
      | true =>
        have hcounted := EnvironmentAction.BlindFrom.tally (s.environment.markOwnerDirty a)
          a.session (fun n => { n with operationsQueued := n.operationsQueued + 1 }) load fault
        simp only [if_true, runOn_bind, runOn_onEnvironment, hcounted]
        rfl
      | false => rfl

end Action.Unread

/-- Only in a sequence does a queue leave open whether an element that it concerns is there. -/
theorem queuedMembership_ne_unknown (hshape : shape ≠ .sequence)
    (queue : List (QueuedOp T.Element K.Carrier)) (e : T.Element) :
    queuedMembership shape queue e ≠ some .unknown := by
  intro h
  obtain ⟨op, -, hop⟩ := List.exists_of_findSome?_eq_some h
  have hleaves : op.leaves? e = some .unknown := by
    cases shape with
    | sequence => exact absurd rfl hshape
    | set => exact hop
    | keyed => exact hop
  cases op with
  | clear => cases hleaves
  | add slot value =>
    simp only [QueuedOp.leaves?] at hleaves
    split at hleaves <;> cases hleaves
  | remove slot value =>
    simp only [QueuedOp.leaves?] at hleaves
    split at hleaves <;> cases hleaves
  | replace slot old new =>
    simp only [QueuedOp.leaves?] at hleaves
    split at hleaves
    · cases hleaves
    · split at hleaves <;> cases hleaves

/-- The calls that need not load: those that are queued without a question, and those that only
ask what a probe of an extra-lazy collection can tell. -/
def ShapedCall.isQueueable (extraLazy : Bool) : ShapedCall T K shape → Bool
  | .ofList (.push _) | .ofList (.extend _) | .ofList .clear => true
  | .ofSet (.insert _) | .ofSet (.remove _) | .ofSet (.contains _) => extraLazy
  | .ofSet .clear => true
  | .ofMap (.insert _ _) | .ofMap (.remove _) | .ofMap (.containsKey _) => extraLazy
  | .ofMap .clear => true
  | _ => false

/-- The probes of the loader have an answer, if they have any, in every state of a kind, and leave
a state of that kind. Answers need not agree with each other. -/
structure Loader.Informs (P : σ → Prop) (loader : Loader σ) : Prop where
  hasElement : ∀ key id source, P source →
    (loader.hasElement key id source).1 ≠ .ok none ∧ P (loader.hasElement key id source).2
  elementAt : ∀ key slot source, P source →
    (loader.elementAt key slot source).1 ≠ .ok none ∧ P (loader.elementAt key slot source).2

/-- The collection is not loaded and may queue its changes, in a session whose loader informs. -/
structure Setting.Defers (P : σ → Prop) (d : Descriptor) (s : Setting T K σ) : Prop where
  descriptor : s.collection.descriptor = d
  stage : s.collection.stage = .uninitialized
  writable : s.collection.readOnly = false
  role : d.options.queueOperations = true
  session : ∃ session a, s.collection.session s.environment = .ok (session, a) ∧
    session.config.queueOperations = true ∧ session.loader.Informs P
  source : P s.environment.source

namespace Setting.Defers

open LazyCollections.Action

variable {P : σ → Prop} {d : Descriptor} {s later : Setting T K σ}

theorem of_standing (h : s.Defers P d) (hlater : s.Standing later)
    (hstage : later.collection.stage = s.collection.stage)
    (hreadOnly : later.collection.readOnly = s.collection.readOnly)
    (hsource : P later.environment.source) : later.Defers P d where
  descriptor := hlater.descriptor.trans h.descriptor
  stage := hstage.trans h.stage
  writable := hreadOnly.trans h.writable
  role := h.role
  session := by
    obtain ⟨session, a, hsession, hqueues, hinforms⟩ := h.session
    obtain ⟨hattachment, hfound, hactive⟩ := Collection.session_eq_ok hsession
    have hsame := hlater.sessions.session?_eq a.session
    rw [hfound, Option.map_some, Option.map_eq_some_iff] at hsame
    obtain ⟨session', hfound', hbare⟩ := hsame
    rw [← hlater.attachment] at hattachment
    simp only [Session.bare, Session.mk.injEq] at hbare
    obtain ⟨hconfig, hloader, -, -, -, hstatus, -⟩ := hbare
    refine ⟨session', a, Collection.session_eq hattachment hfound' (hstatus.trans hactive), ?_, ?_⟩
    · rw [hconfig, hqueues]
    · rwa [hloader]
  source := hsource

theorem onEnvironment (h : s.Defers P d) {env : Environment σ}
    (henv : s.environment.SameSessions env) (hsource : P env.source) :
    Setting.Defers P d { s with environment := env } :=
  h.of_standing ((Setting.Standing.refl s).onEnvironment henv) rfl rfl hsource

theorem enqueue (h : s.Defers P d) (op : QueuedOp T.Element K.Carrier) :
    Unread s (Action.enqueue op) (fun _ => Setting.Defers P d) (Setting.Defers P d) := by
  apply Unread.enqueue
  intro env henv
  have hstanding := ((Setting.Standing.refl s).onEnvironment henv.sameSessions).onCollection
    (c := { s.collection with queue := s.collection.queue ++ [op] }) rfl rfl
  refine h.of_standing hstanding rfl rfl ?_
  rw [henv.source]
  exact h.source

theorem tally (h : s.Defers P d) (id : SessionId) (count : SessionStats → SessionStats) :
    Unread s (Action.onEnvironment (.tally id count) : Action T K σ Unit)
      (fun _ => Setting.Defers P d) (Setting.Defers P d) :=
  .onEnvironment (.tally _ id count)
    (h.onEnvironment (s.environment.notes_tally id count).sameSessions h.source)

theorem ask (h : s.Defers P d) {question : σ → Except Error α × σ}
    (hquestion : P (question s.environment.source).2) :
    Unread s (Action.onEnvironment (.ask question) : Action T K σ α)
      (fun a later => (question s.environment.source).1 = .ok a ∧ later.Defers P d)
      (Setting.Defers P d) := by
  have hlater : Setting.Defers P d
      { s with environment :=
        { s.environment with source := (question s.environment.source).2 } } :=
    h.onEnvironment rfl hquestion
  refine .onEnvironment (.ask _ question) ?_
  rw [Ensures, runOn_onEnvironment, EnvironmentAction.runOn_ask]
  cases hanswer : (question s.environment.source).1 with
  | ok a => exact ⟨rfl, hlater⟩
  | error error => exact hlater

theorem mayQueue_eq (h : s.Defers P d) : s.collection.mayQueue s.environment = true := by
  obtain ⟨session, a, hsession, hqueues, -⟩ := h.session
  obtain ⟨hattachment, hfound, hactive⟩ := Collection.session_eq_ok hsession
  rw [Collection.mayQueue, h.stage, h.writable, h.descriptor, h.role, hattachment,
    Option.any_some, Environment.permitsQueue, hfound, Option.any_some, Session.isActive, hactive,
    hqueues]
  rfl

theorem mayQueue (h : s.Defers P d) {E : Setting T K σ → Prop} :
    Unread s (Action.mayQueue : Action T K σ Bool) (fun allowed later => allowed = true ∧ later = s)
      E where
  ensures := ⟨h.mayQueue_eq, rfl⟩
  blind load fault := by
    have hsealed : s.collection.mayQueue (s.environment.sealed load fault) =
        s.collection.mayQueue s.environment := by
      simp only [Collection.mayQueue, funext (s.environment.permitsQueue_sealed load fault)]
    exact congrArg (fun allowed => (Except.ok allowed, s.sealed load fault)) hsealed

theorem change (h : s.Defers P d) {queued loaded : Action T K σ α}
    {Q : α → Setting T K σ → Prop} {E : Setting T K σ → Prop} (hqueued : Unread s queued Q E) :
    Unread s (do
      (← Action.collection).checkWritable
      if ← Action.mayQueue then queued else loaded) Q E := by
  apply Unread.collection_bind
  have hwritable : s.collection.checkWritable = .ok () := by
    rw [Collection.checkWritable, h.writable]
    rfl
  refine (Unread.ofExcept (Q := fun _ later => later = s) (fun _ _ => rfl) ?_).bind ?_
  · intro error herror
    rw [hwritable] at herror
    cases herror
  · rintro _ _ rfl
    refine (mayQueue h).bind ?_
    rintro _ _ ⟨rfl, rfl⟩
    exact hqueued

theorem probeMembership (h : s.Defers P d) (hshape : d.shape ≠ .sequence)
    (hlazy : d.options.extraLazy = true) (e : T.Element) :
    Unread s (Action.probeMembership e : Action T K σ (Option Bool))
      (fun found later => found ≠ none ∧ later.Defers P d) (Setting.Defers P d) := by
  apply Unread.collection_bind
  have hknown := queuedMembership_ne_unknown hshape s.collection.queue e
  rw [← h.descriptor] at hknown hlazy
  cases hqueued : queuedMembership s.collection.descriptor.shape s.collection.queue e with
  | some membership =>
    cases membership with
    | present => exact .pure ⟨nofun, h⟩
    | absent => exact .pure ⟨nofun, h⟩
    | unknown => exact absurd hqueued hknown
  | none =>
    obtain ⟨session, a, hsession, -, hinforms⟩ := h.session
    simp only [hlazy, if_true]
    refine .activeSession_bind hsession (fun _ => rfl) ?_
    refine (Unread.ofExcept (Q := fun _ => Setting.Defers P d) (fun _ _ => h)
      fun _ _ => h).bind fun id later hlater => ?_
    refine (hlater.tally a.session _).bind fun _ last hlast => ?_
    have hprobe := hinforms.hasElement ⟨s.collection.role, a.owner⟩ id last.environment.source
      hlast.source
    refine (hlast.ask hprobe.2).post ?_
    rintro found _ ⟨hanswer, hfound⟩
    exact ⟨fun hnone => hprobe.1 (hnone ▸ hanswer), hfound⟩

theorem probeKey (h : s.Defers P d) (hlazy : d.options.extraLazy = true) (k : K.Carrier) :
    Unread s (Action.probeKey k : Action T K σ (Option (Option T.Element)))
      (fun found later => found ≠ none ∧ later.Defers P d) (Setting.Defers P d) := by
  apply Unread.collection_bind
  rw [← h.descriptor] at hlazy
  cases hqueued : queuedEntry s.collection.queue k with
  | some entry => exact .pure ⟨nofun, h⟩
  | none =>
    obtain ⟨session, a, hsession, -, hinforms⟩ := h.session
    simp only [hlazy, if_true]
    refine .activeSession_bind hsession (fun _ => rfl) ?_
    refine (h.tally a.session _).bind fun _ later hlater => ?_
    have hprobe := hinforms.elementAt ⟨s.collection.role, a.owner⟩ (.key (K.toValue k))
      later.environment.source hlater.source
    refine (hlater.ask hprobe.2).bind ?_
    rintro probe last ⟨hanswer, hlast⟩
    cases probe with
    | none => exact absurd hanswer hprobe.1
    | some probe =>
      cases probe with
      | absent => exact .pure ⟨nofun, hlast⟩
      | present v =>
        exact (Unread.ofExcept (Q := fun _ => Setting.Defers P d) (fun _ _ => hlast)
          fun _ _ => hlast).bind fun _ _ hfound => .pure ⟨nofun, hfound⟩

theorem push (h : s.Defers P d) (e : T.Element) :
    Unread s (LazyList.push e : Action T K σ Unit) (fun _ => Setting.Defers P d)
      (Setting.Defers P d) :=
  h.change (h.enqueue _)

theorem extend (h : s.Defers P d) (es : List T.Element) :
    Unread s (LazyList.extend es : Action T K σ Unit) (fun _ => Setting.Defers P d)
      (Setting.Defers P d) := by
  induction es generalizing s with
  | nil => exact .pure h
  | cons e es ih => exact (h.push e).bind fun _ _ hafter => ih hafter

theorem setContains (h : s.Defers P d) (hshape : d.shape ≠ .sequence)
    (hlazy : d.options.extraLazy = true) (e : T.Element) :
    Unread s (LazySet.contains e : Action T K σ Bool) (fun _ => Setting.Defers P d)
      (Setting.Defers P d) := by
  apply Unread.collection_bind
  rw [if_pos h.stage]
  refine (h.probeMembership hshape hlazy e).bind ?_
  rintro found after ⟨hfound, hafter⟩
  cases found with
  | none => exact absurd rfl hfound
  | some b => exact .pure hafter

theorem setInsert (h : s.Defers P d) (hshape : d.shape ≠ .sequence)
    (hlazy : d.options.extraLazy = true) (e : T.Element) :
    Unread s (LazySet.insert e : Action T K σ Bool) (fun _ => Setting.Defers P d)
      (Setting.Defers P d) := by
  apply h.change
  refine (h.probeMembership hshape hlazy e).bind ?_
  rintro found after ⟨hfound, hafter⟩
  cases found with
  | none => exact absurd rfl hfound
  | some b =>
    cases b with
    | true => exact .pure hafter
    | false => exact (hafter.enqueue _).bind fun _ _ hadded => .pure hadded

theorem setRemove (h : s.Defers P d) (hshape : d.shape ≠ .sequence)
    (hlazy : d.options.extraLazy = true) (e : T.Element) :
    Unread s (LazySet.remove e : Action T K σ Bool) (fun _ => Setting.Defers P d)
      (Setting.Defers P d) := by
  apply h.change
  refine (h.probeMembership hshape hlazy e).bind ?_
  rintro found after ⟨hfound, hafter⟩
  cases found with
  | none => exact absurd rfl hfound
  | some b =>
    cases b with
    | true => exact (hafter.enqueue _).bind fun _ _ hremoved => .pure hremoved
    | false => exact .pure hafter

theorem containsKey (h : s.Defers P d) (hlazy : d.options.extraLazy = true) (k : K.Carrier) :
    Unread s (LazyMap.containsKey k : Action T K σ Bool) (fun _ => Setting.Defers P d)
      (Setting.Defers P d) := by
  apply Unread.collection_bind
  rw [if_pos h.stage]
  refine (h.probeKey hlazy k).bind ?_
  rintro found after ⟨hfound, hafter⟩
  cases found with
  | none => exact absurd rfl hfound
  | some entry => exact .pure hafter

theorem mapInsert (h : s.Defers P d) (hlazy : d.options.extraLazy = true) (k : K.Carrier)
    (e : T.Element) :
    Unread s (LazyMap.insert k e : Action T K σ (Option T.Element)) (fun _ => Setting.Defers P d)
      (Setting.Defers P d) := by
  apply h.change
  refine (h.probeKey hlazy k).bind ?_
  rintro found after ⟨hfound, hafter⟩
  cases found with
  | none => exact absurd rfl hfound
  | some entry =>
    cases entry with
    | none => exact (hafter.enqueue _).bind fun _ _ hadded => .pure hadded
    | some old => exact (hafter.enqueue _).bind fun _ _ hreplaced => .pure hreplaced

theorem mapRemove (h : s.Defers P d) (hlazy : d.options.extraLazy = true) (k : K.Carrier) :
    Unread s (LazyMap.remove k : Action T K σ (Option T.Element)) (fun _ => Setting.Defers P d)
      (Setting.Defers P d) := by
  apply h.change
  refine (h.probeKey hlazy k).bind ?_
  rintro found after ⟨hfound, hafter⟩
  cases found with
  | none => exact absurd rfl hfound
  | some entry =>
    cases entry with
    | none => exact .pure hafter
    | some old => exact (hafter.enqueue _).bind fun _ _ hremoved => .pure hremoved

theorem call (h : s.Defers P d) (hshape : d.shape = shape) (call : ShapedCall T K shape)
    (hcall : call.isQueueable d.options.extraLazy = true) :
    Unread s (call.run : Action T K σ (Answer T K)) (fun _ => Setting.Defers P d)
      (Setting.Defers P d) := by
  cases call with
  | ofList call =>
    cases call with
    | push e => exact (h.push e).map _
    | extend es => exact (h.extend es).map _
    | clear => exact (h.change (h.enqueue _)).map _
    | size | isEmpty | get | contains | indexOf | elements | slots | insert | set | setNull
    | removeAt | remove | retain | removeAll => cases hcall
  | ofSet call =>
    have hset : d.shape ≠ .sequence := by rw [hshape]; nofun
    cases call with
    | insert e => exact (h.setInsert hset hcall e).map _
    | remove e => exact (h.setRemove hset hcall e).map _
    | contains e => exact (h.setContains hset hcall e).map _
    | clear => exact (h.change (h.enqueue _)).map _
    | size | isEmpty | get | elements | retain => cases hcall
  | ofMap call =>
    cases call with
    | insert k e => exact (h.mapInsert hcall k e).map _
    | remove k => exact (h.mapRemove hcall k).map _
    | containsKey k => exact (h.containsKey hcall k).map _
    | clear => exact (h.change (h.enqueue _)).map _
    | size | isEmpty | get | entries | keys | values => cases hcall

theorem settleQueue (h : s.Defers P d) (session : Session σ) (a : Attachment) :
    Unread s (Action.settleQueue session a : Action T K σ Unit) (fun _ => Setting.Defers P d)
      (Setting.Defers P d) := by
  have hsettled : Setting.Defers P d
      { s with collection := { s.collection with queue := [], cachedSize := none } } :=
    h.of_standing ((Setting.Standing.refl s).onCollection rfl rfl) rfl rfl h.source
  refine (Unread.modifyCollection (Q := fun _ => Setting.Defers P d) hsettled).bind ?_
  intro _ after hafter
  apply Unread.collection_bind
  refine .onEnvironment (.evictCache _ session _ a) ?_
  apply Ensures.of_after
  rw [runOn_onEnvironment]
  refine hafter.onEnvironment ?_ ?_
  · exact (EnvironmentAction.tends_evictCache.keepsSessions after.environment).after
  · rw [EnvironmentAction.source_evictCache]
    exact hafter.source

theorem persist (h : s.Defers P d) {persister : Persister T K σ}
    (hpersister : ∀ owner d changes source, P source → P (persister owner d changes source).2)
    (a : Attachment) (changes : ChangeSet T.Element K.Carrier) :
    Unread s (Action.persist persister a changes) (fun _ => Setting.Defers P d)
      (Setting.Defers P d) := by
  apply Unread.collection_bind
  refine (h.ask (hpersister _ _ _ _ h.source)).bind ?_
  rintro _ after ⟨-, hafter⟩
  exact hafter.tally a.session _

theorem flush (h : s.Defers P d) {persister : Persister T K σ}
    (hpersister : ∀ owner d changes source, P source → P (persister owner d changes source).2) :
    Unread s (Action.flush persister) (fun _ => Setting.Defers P d) (Setting.Defers P d) := by
  have hqueue : Unread s (flushQueue persister) (fun _ => Setting.Defers P d)
      (Setting.Defers P d) := by
    apply Unread.collection_bind
    split
    next => exact .pure h
    next =>
      obtain ⟨session, a, hsession, -⟩ := h.session
      refine .activeSession_bind hsession (fun _ => rfl) ?_
      simp only
      split
      next => exact (h.settleQueue session a).map _
      next =>
        refine (h.persist hpersister a _).bind fun _ after hafter => ?_
        exact (hafter.settleQueue session a).bind fun _ _ hsettled => .pure hsettled
  apply Unread.collection_bind
  simp only [h.writable, h.stage]
  exact hqueue

end Setting.Defers

inductive Errand (T : ElementType) (K : Scalar) (σ : Type) (shape : Shape) where
  | call (call : ShapedCall T K shape)
  | flush (persister : Persister T K σ)

namespace Errand

def run : Errand T K σ shape → Action T K σ (Answer T K ⊕ FlushOutcome)
  | call c => return .inl (← c.run)
  | flush persister => return .inr (← Action.flush persister)

/-- The results of errands that are run one after the other, whether they succeed or fail, and the
setting that they leave. -/
def runAll : List (Errand T K σ shape) → Setting T K σ →
    List (Except Error (Answer T K ⊕ FlushOutcome)) × Setting T K σ
  | [], s => ([], s)
  | errand :: errands, s =>
    let (result, after) := errand.run.runOn s
    let (results, last) := runAll errands after
    (result :: results, last)

/-- The errand needs no loaded contents, and a persister leaves a state of the given kind. -/
def IsQueueable (P : σ → Prop) (extraLazy : Bool) : Errand T K σ shape → Prop
  | call c => c.isQueueable extraLazy = true
  | flush persister =>
    ∀ owner d changes source, P source → P (persister owner d changes source).2

variable {P : σ → Prop} {d : Descriptor} {s : Setting T K σ}

theorem unread (h : s.Defers P d) (hshape : d.shape = shape) {errand : Errand T K σ shape}
    (herrand : errand.IsQueueable P d.options.extraLazy) :
    Action.Unread s errand.run (fun _ => Setting.Defers P d) (Setting.Defers P d) := by
  cases errand with
  | call c => exact (h.call hshape c herrand).map _
  | flush persister => exact (h.flush herrand).map _

end Errand

/-- Errands that need no loaded contents leave an extra-lazy collection unloaded, whatever probes
and persisters answer. What they give and leave is the same if loading delivers anything else and
every read of the cache fails, so nothing has been loaded and the cache has not been read. -/
theorem errands_never_load {P : σ → Prop} {d : Descriptor} {s : Setting T K σ} (h : s.Defers P d)
    (hshape : d.shape = shape) (errands : List (Errand T K σ shape))
    (herrands : ∀ errand ∈ errands, errand.IsQueueable P d.options.extraLazy)
    (load : CollectionKey → σ → Feed × σ) (fault : RegionError) :
    (Errand.runAll errands s).2.collection.stage = .uninitialized ∧
      Errand.runAll errands (s.sealed load fault) =
        ((Errand.runAll errands s).1, (Errand.runAll errands s).2.sealed load fault) := by
  induction errands generalizing s with
  | nil => exact ⟨h.stage, rfl⟩
  | cons errand errands ih =>
    have hunread := Errand.unread h hshape (herrands errand List.mem_cons_self)
    obtain ⟨hstage, hrest⟩ := ih hunread.ensures.after
      fun later hlater => herrands later (List.mem_cons_of_mem _ hlater)
    refine ⟨hstage, ?_⟩
    simp only [Errand.runAll, hunread.blind load fault, hrest]

/-- A loader that says yes and no by turns, and cannot load. -/
def Loader.wavering : Loader Nat where
  load _ n := (⟨[], some (.sourceUnavailable .offline)⟩, n)
  size _ n := (.ok none, n)
  hasElement _ _ n := (.ok (some (n % 2 = 0)), n + 1)
  elementAt _ _ n := (.ok (some .absent), n + 1)

def Setting.wavering : Setting (.ofScalar .text) .unkeyed Nat :=
  ⟨.unloaded ⟨⟨"Order.tags"⟩, .set, { extraLazy := true }⟩ ⟨⟨0⟩, 0, .filled 0⟩ false,
    { sessions :=
        [{ config := {}
           loader := .wavering
           cached := true
           owners := [⟨.filled 0, false⟩] }]
      cache := { region := .empty none }
      source := 0 }⟩

theorem Setting.defers_wavering :
    Setting.wavering.Defers (fun _ => True) ⟨⟨"Order.tags"⟩, .set, { extraLazy := true }⟩ where
  descriptor := rfl
  stage := rfl
  writable := rfl
  role := rfl
  session := ⟨_, _, rfl, rfl, ⟨fun _ _ _ _ => ⟨nofun, trivial⟩, fun _ _ _ _ => ⟨nofun, trivial⟩⟩⟩
  source := trivial

theorem errands_never_load_wavering :
    let errands : List (Errand (.ofScalar .text) .unkeyed Nat .set) :=
      [.call (.ofSet (.insert "urgent")), .call (.ofSet (.remove "urgent")),
       .call (.ofSet (.contains "fragile")), .flush fun _ _ _ n => (.ok (), n + 1),
       .call (.ofSet .clear)]
    (∀ errand ∈ errands, errand.IsQueueable (fun _ => True) true) ∧
      (Errand.runAll errands .wavering).2.collection.stage = .uninitialized ∧
      Errand.runAll errands (Setting.wavering.sealed Loader.wavering.load .closed) =
        ((Errand.runAll errands .wavering).1,
          (Errand.runAll errands .wavering).2.sealed Loader.wavering.load .closed) := by
  intro errands
  have herrands : ∀ errand ∈ errands, errand.IsQueueable (fun _ => True) true := by
    intro errand h
    simp only [errands, List.mem_cons, List.not_mem_nil, or_false] at h
    rcases h with rfl | rfl | rfl | rfl | rfl
    · rfl
    · rfl
    · rfl
    · exact fun _ _ _ _ _ => trivial
    · rfl
  exact ⟨herrands, errands_never_load Setting.defers_wavering rfl errands herrands _ _⟩

end LazyCollections
