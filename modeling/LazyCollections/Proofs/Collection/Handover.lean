import LazyCollections.Collection.Flush
import LazyCollections.Proofs.Collection.Steps

/-!
# What a flush hands over

A flush finds nothing to write, or it hands one change set to the persister through the session of
the collection, and settles the collection once the persister has accepted it. Which change set that
is depends on the collection only.
-/

namespace LazyCollections

set_option autoImplicit false

variable {T : ElementType} {K : Scalar} {σ α β : Type}

/-- There is nothing to write: the collection is read-only, or nothing was queued or changed. -/
def Collection.AtRest (c : Collection T K) : Prop :=
  c.readOnly = true ∨ c.isLoaded = true ∧ c.dirty = false ∨ c.isLoaded = false ∧ c.queue = []

def Collection.settled (c : Collection T K) : Collection T K :=
  if c.isLoaded then
    { c with
      snapshot := if c.descriptor.options.dirtyChecking then some c.contents.deepCopy else none
      dirty := false }
  else { c with queue := [], cachedSize := none }

theorem Collection.settled_of_loaded {c : Collection T K} (h : c.isLoaded = true) :
    c.settled =
      { c with
        snapshot := if c.descriptor.options.dirtyChecking then some c.contents.deepCopy else none
        dirty := false } :=
  if_pos h

theorem Collection.settled_of_unloaded {c : Collection T K} (h : c.isLoaded = false) :
    c.settled = { c with queue := [], cachedSize := none } := by
  rw [settled, h, if_neg Bool.false_ne_true]

@[simp] theorem Collection.descriptor_settled (c : Collection T K) :
    c.settled.descriptor = c.descriptor := by
  unfold settled
  split <;> rfl

@[simp] theorem Collection.stage_settled (c : Collection T K) : c.settled.stage = c.stage := by
  unfold settled
  split <;> rfl

theorem Collection.not_atRest_of_unloaded {c : Collection T K} (hwritable : c.readOnly = false)
    (hunloaded : c.isLoaded = false) (hqueued : c.queue ≠ []) : ¬c.AtRest := by
  rintro (hreadOnly | ⟨hloaded, _⟩ | ⟨_, hempty⟩)
  · simp [hwritable] at hreadOnly
  · simp [hunloaded] at hloaded
  · exact hqueued hempty

theorem Collection.not_atRest_of_loaded {c : Collection T K} (hwritable : c.readOnly = false)
    (hloaded : c.isLoaded = true) (hdirty : c.dirty = true) : ¬c.AtRest := by
  rintro (hreadOnly | ⟨_, hclean⟩ | ⟨hunloaded, _⟩)
  · simp [hwritable] at hreadOnly
  · simp [hdirty] at hclean
  · simp [hloaded] at hunloaded

def Collection.queuedWork (c : Collection T K) : ChangeSet T.Element K.Carrier :=
  .ofQueue c.queue c.descriptor.options.orphanDelete

/-- A flush writes the queue, through the given session. -/
structure Setting.FlushesQueue (s : Setting T K σ) (session : Session σ) (a : Attachment) :
    Prop where
  writable : s.collection.readOnly = false
  ready : s.collection.stage ≠ .initializing
  unloaded : s.collection.isLoaded = false
  queued : s.collection.queue ≠ []
  session : s.collection.session s.environment = .ok (session, a)

/-- A flush writes the difference of the loaded contents, through the given session. -/
structure Setting.FlushesContents (s : Setting T K σ) (session : Session σ) (a : Attachment)
    (changes : ChangeSet T.Element K.Carrier) : Prop where
  writable : s.collection.readOnly = false
  loaded : s.collection.isLoaded = true
  dirty : s.collection.dirty = true
  unequal : s.collection.equalsSnapshot = false
  session : s.collection.session s.environment = .ok (session, a)
  diff : s.collection.diff = .ok changes

/-- A flush hands the change set to the persister. -/
inductive Setting.HandsOver (s : Setting T K σ) (a : Attachment) :
    ChangeSet T.Element K.Carrier → Prop
  | queue {session : Session σ} (h : s.FlushesQueue session a)
      (some_work : (s.collection.queuedWork.isEmpty && s.collection.queuedWork.orphans.isEmpty) =
        false) : s.HandsOver a s.collection.queuedWork
  | contents {session : Session σ} {changes : ChangeSet T.Element K.Carrier}
      (h : s.FlushesContents session a changes) : s.HandsOver a changes

section HandsOver

variable {s : Setting T K σ} {a : Attachment} {changes : ChangeSet T.Element K.Carrier}

theorem Setting.FlushesQueue.not_atRest {session : Session σ} (h : s.FlushesQueue session a) :
    ¬s.collection.AtRest :=
  Collection.not_atRest_of_unloaded h.writable h.unloaded h.queued

namespace Setting.HandsOver

theorem not_atRest (h : s.HandsOver a changes) : ¬s.collection.AtRest := by
  cases h with
  | queue hflushes => exact hflushes.not_atRest
  | contents hflushes =>
    exact Collection.not_atRest_of_loaded hflushes.writable hflushes.loaded hflushes.dirty

theorem ready (h : s.HandsOver a changes) : s.collection.stage ≠ .initializing := by
  cases h with
  | queue hflushes => exact hflushes.ready
  | contents hflushes =>
    intro hstage
    have hloaded := hflushes.loaded
    rw [Collection.isLoaded, hstage] at hloaded
    cases hloaded

theorem attachment_unique {b : Attachment} (h : s.HandsOver a changes)
    (hattachment : s.collection.attachment = some b) : a = b := by
  have hattached {session : Session σ}
      (hsession : s.collection.session s.environment = .ok (session, a)) : a = b := by
    have ha := (Collection.session_eq_ok hsession).1
    rw [hattachment] at ha
    exact (Option.some.inj ha).symm
  cases h with
  | queue hflushes => exact hattached hflushes.session
  | contents hflushes => exact hattached hflushes.session

theorem eq_queuedWork (h : s.HandsOver a changes) (hunloaded : s.collection.isLoaded = false) :
    changes = s.collection.queuedWork := by
  cases h with
  | queue hflushes => rfl
  | contents hflushes => exact absurd hflushes.loaded (Bool.eq_false_iff.mp hunloaded)

theorem diff_of_loaded (h : s.HandsOver a changes) (hloaded : s.collection.isLoaded = true) :
    s.collection.diff = .ok changes ∧ s.collection.equalsSnapshot = false := by
  cases h with
  | queue hflushes => exact absurd hloaded (Bool.eq_false_iff.mp hflushes.unloaded)
  | contents hflushes => exact ⟨hflushes.diff, hflushes.unequal⟩

end Setting.HandsOver

end HandsOver

open LazyCollections.Action

namespace Action.Ensures

variable {s : Setting T K σ} {E : Error → Setting T K σ → Prop}

theorem persist {persister : Persister T K σ} {a : Attachment}
    {changes : ChangeSet T.Element K.Carrier} {Q : Unit → Setting T K σ → Prop}
    (hok : ∀ source,
      persister a.owner s.collection.descriptor changes s.environment.source = (.ok (), source) →
        ∀ later, { s.environment with source }.Records later → Q () ⟨s.collection, later⟩)
    (herror : ∀ error source,
      persister a.owner s.collection.descriptor changes s.environment.source =
        (.error error, source) →
          E error ⟨s.collection, { s.environment with source }⟩) :
    Ensures s (Action.persist persister a changes) Q E := by
  have hasked : EnvironmentAction.Ensures s.environment
      (.ask (persister a.owner s.collection.descriptor changes))
      (fun _ env => ∀ later, env.Records later → Q () ⟨s.collection, later⟩)
      fun error env => E error ⟨s.collection, env⟩ := by
    apply EnvironmentAction.Ensures.ask
    cases hrun : persister a.owner s.collection.descriptor changes s.environment.source with
    | mk answer source =>
      cases answer with
      | ok _ => exact hok source hrun
      | error error => exact herror error source hrun
  apply collection_bind
  refine bind (Q := fun _ s' => ∃ env, s' = ⟨s.collection, env⟩ ∧
    ∀ later, env.Records later → Q () ⟨s.collection, later⟩) ?_ ?_
  · exact of_environment hasked (fun _ env h => ⟨env, rfl, h⟩) fun _ _ h => h
  · rintro _ _ ⟨env, rfl, hafter⟩
    apply onEnvironment
    exact hafter _ (env.records_tally a.session
      fun n => { n with collectionsFlushed := n.collectionsFlushed + 1 })

theorem settle {f : Collection T K → Collection T K} {session : Session σ} {a : Attachment}
    {Q : Unit → Setting T K σ → Prop}
    (h : EnvironmentAction.Ensures s.environment
      (EnvironmentAction.evictCache session (f s.collection).descriptor a)
      (fun _ env => Q () ⟨f s.collection, env⟩) fun error env => E error ⟨f s.collection, env⟩) :
    Ensures s
      (do
        Action.modifyCollection f
        Action.onEnvironment (.evictCache session (← Action.collection).descriptor a)) Q E := by
  apply modifyCollection_bind
  apply collection_bind
  exact of_environment h (fun _ _ hQ => hQ) fun _ _ hE => hE

theorem andReturn {action : Action T K σ Unit} {Q : α → Setting T K σ → Prop} {a : α}
    (h : Ensures s action (fun _ => Q a) E) :
    Ensures s
      (do
        action
        return a) Q E :=
  h.bind fun _ _ hQ => pure hQ

section Flush

variable {persister : Persister T K σ} {Q : FlushOutcome → Setting T K σ → Prop}

theorem flush_unloaded (hwritable : s.collection.readOnly = false)
    (hready : s.collection.stage ≠ .initializing) (hunloaded : s.collection.isLoaded = false)
    (h : Ensures s (Action.flushQueue persister) Q E) : Ensures s (Action.flush persister) Q E := by
  apply collection_bind
  rw [hwritable]
  rw [Collection.isLoaded] at hunloaded
  cases hstage : s.collection.stage with
  | initializing => exact absurd hstage hready
  | unbound | uninitialized => exact h
  | initialized | readOnlyInitialized =>
    rw [hstage] at hunloaded
    cases hunloaded

theorem flush_loaded (hwritable : s.collection.readOnly = false)
    (hloaded : s.collection.isLoaded = true) (h : Ensures s (Action.flushLoaded persister) Q E) :
    Ensures s (Action.flush persister) Q E := by
  apply collection_bind
  rw [hwritable]
  rw [Collection.isLoaded] at hloaded
  cases hstage : s.collection.stage with
  | initialized | readOnlyInitialized => exact h
  | initializing | unbound | uninitialized =>
    rw [hstage] at hloaded
    cases hloaded

section HandsOver

variable {a : Attachment} {changes : ChangeSet T.Element K.Carrier}
variable (hover : s.HandsOver a changes)
variable
  (hok : ∀ source,
    persister a.owner s.collection.descriptor changes s.environment.source = (.ok (), source) →
      ∀ session, s.collection.session s.environment = .ok (session, a) →
        ∀ later, { s.environment with source }.Records later →
          EnvironmentAction.Ensures later (.evictCache session s.collection.descriptor a)
            (fun _ env => Q (.ofChanges changes) ⟨s.collection.settled, env⟩)
            fun error env => E error ⟨s.collection.settled, env⟩)
  (herror : ∀ error source,
    persister a.owner s.collection.descriptor changes s.environment.source =
      (.error error, source) →
        E error ⟨s.collection, { s.environment with source }⟩)
include hok herror

theorem persist_settle {session : Session σ}
    (hsession : s.collection.session s.environment = .ok (session, a))
    {f : Collection T K → Collection T K} (hf : f s.collection = s.collection.settled) :
    Ensures s
      (do
        Action.persist persister a changes
        (do
          Action.modifyCollection f
          Action.onEnvironment (.evictCache session (← Action.collection).descriptor a))
        return FlushOutcome.ofChanges changes) Q E := by
  refine bind (Q := fun _ after => ∃ later, after = ⟨s.collection, later⟩ ∧
    EnvironmentAction.Ensures later (.evictCache session s.collection.descriptor a)
      (fun _ env => Q (.ofChanges changes) ⟨s.collection.settled, env⟩)
      fun error env => E error ⟨s.collection.settled, env⟩) ?_ ?_
  · exact persist (fun source haccepted later hlater =>
      ⟨later, rfl, hok source haccepted session hsession later hlater⟩) herror
  · rintro _ _ ⟨later, rfl, hevicted⟩
    apply andReturn
    apply settle
    rwa [hf, Collection.descriptor_settled]

theorem flushQueue_of_flushesQueue {session : Session σ} (h : s.FlushesQueue session a)
    (hchanges : changes = s.collection.queuedWork)
    (hwork : (changes.isEmpty && changes.orphans.isEmpty) = false) :
    Ensures s (Action.flushQueue persister) Q E := by
  apply collection_bind
  rw [if_neg (by simpa using h.queued)]
  apply activeSession_bind h.session
  rw [Collection.queuedWork] at hchanges
  rw [hchanges] at hwork hok herror
  simp only [hwork]
  exact persist_settle hok herror h.session (Collection.settled_of_unloaded h.unloaded).symm

theorem flushLoaded_of_flushesContents {session : Session σ}
    (h : s.FlushesContents session a changes) :
    Ensures s (Action.flushLoaded persister) Q E := by
  apply collection_bind
  rw [h.dirty, h.unequal]
  apply activeSession_bind h.session
  apply ofExcept_bind h.diff
  exact persist_settle hok herror h.session (Collection.settled_of_loaded h.loaded).symm

include hover in
/-- A flush that hands changes over asks the persister once, for these. If they are accepted it
settles the collection and evicts its cache entry. -/
theorem flush_of_handsOver : Ensures s (Action.flush persister) Q E := by
  have hready := hover.ready
  cases hover with
  | queue hflushes hwork =>
    apply flush_unloaded hflushes.writable hready hflushes.unloaded
    exact flushQueue_of_flushesQueue hok herror hflushes rfl hwork
  | contents hflushes =>
    apply flush_loaded hflushes.writable hflushes.loaded
    exact flushLoaded_of_flushesContents hok herror hflushes

end HandsOver

variable
  (hrest : s.collection.AtRest →
    ∀ later, s.environment.Records later → Q .skipped ⟨s.collection, later⟩)
  (hlost : ¬s.collection.AtRest → ∀ error, s.collection.session s.environment = .error error →
    E error { s with collection := s.collection.loseSession })

include hrest hlost

variable (persister) in
theorem flushQueue_of_not_handsOver
    (hcancelled : ∀ session a, s.FlushesQueue session a → s.collection.queuedWork.isEmpty = true →
      EnvironmentAction.Ensures s.environment (.evictCache session s.collection.descriptor a)
        (fun _ env => Q .clean ⟨s.collection.settled, env⟩)
        fun error env => E error ⟨s.collection.settled, env⟩)
    (hnone : ∀ a changes, ¬s.HandsOver a changes)
    (hwritable : s.collection.readOnly = false) (hready : s.collection.stage ≠ .initializing)
    (hunloaded : s.collection.isLoaded = false) : Ensures s (Action.flushQueue persister) Q E := by
  apply collection_bind
  split
  next hempty =>
    exact pure (hrest (.inr (.inr ⟨hunloaded, List.isEmpty_iff.mp hempty⟩)) _ (.refl _))
  next hsome =>
    have hqueued : s.collection.queue ≠ [] := fun hnil => hsome (by rw [hnil]; rfl)
    refine activeSession_cases (fun session a hsession => ?_)
      (hlost (Collection.not_atRest_of_unloaded hwritable hunloaded hqueued))
    have hflushes : s.FlushesQueue session a := ⟨hwritable, hready, hunloaded, hqueued, hsession⟩
    simp only
    split
    next hnothing =>
      apply andReturn
      apply settle
      rw [← Collection.settled_of_unloaded hunloaded, Collection.descriptor_settled]
      exact hcancelled session a hflushes (Bool.and_eq_true_iff.mp hnothing).1
    next hwork => exact absurd (.queue hflushes (Bool.eq_false_iff.mpr hwork)) (hnone a _)

variable (persister) in
theorem flushLoaded_of_not_handsOver
    (hincomparable : ¬s.collection.AtRest → s.collection.isLoaded = true →
      ∀ error, s.collection.diff = .error error → E error s)
    (hequal : ¬s.collection.AtRest → s.collection.isLoaded = true →
      s.collection.equalsSnapshot = true →
        Q .clean { s with collection := { s.collection with dirty := false } })
    (hnone : ∀ a changes, ¬s.HandsOver a changes)
    (hwritable : s.collection.readOnly = false) (hloaded : s.collection.isLoaded = true) :
    Ensures s (Action.flushLoaded persister) Q E := by
  apply collection_bind
  split
  next hclean =>
    have hskip := hrest (.inr (.inl ⟨hloaded, by simpa using hclean⟩))
    apply environment_bind
    cases s.collection.session s.environment with
    | error error => exact hskip _ (.refl _)
    | ok found =>
      exact hskip _ (s.environment.records_tally found.2.session
        fun n => { n with flushesSkipped := n.flushesSkipped + 1 })
  next hunclean =>
    have hdirty : s.collection.dirty = true := by simpa using hunclean
    have hunrested := Collection.not_atRest_of_loaded hwritable hloaded hdirty
    split
    next hequals =>
      apply modifyCollection_bind
      exact hequal hunrested hloaded hequals
    next hunequal =>
      refine activeSession_cases (fun session a hsession => ?_) (hlost hunrested)
      rw [Ensures, runOn_bind, runOn_ofExcept]
      cases hdiff : s.collection.diff with
      | ok changes =>
        exact absurd (.contents ⟨hwritable, hloaded, hdirty, Bool.eq_false_iff.mpr hunequal,
          hsession, hdiff⟩) (hnone a changes)
      | error error => exact hincomparable hunrested hloaded error hdiff

theorem flush
    (hbusy : s.collection.stage = .initializing →
      E (.invalidOperation (.cannotFlush s.collection.role)) s)
    (hincomparable : ¬s.collection.AtRest → s.collection.isLoaded = true →
      ∀ error, s.collection.diff = .error error → E error s)
    (hequal : ¬s.collection.AtRest → s.collection.isLoaded = true →
      s.collection.equalsSnapshot = true →
        Q .clean { s with collection := { s.collection with dirty := false } })
    (hcancelled : ∀ session a, s.FlushesQueue session a → s.collection.queuedWork.isEmpty = true →
      EnvironmentAction.Ensures s.environment (.evictCache session s.collection.descriptor a)
        (fun _ env => Q .clean ⟨s.collection.settled, env⟩)
        fun error env => E error ⟨s.collection.settled, env⟩)
    (hover : ∀ a changes, s.HandsOver a changes → Ensures s (Action.flush persister) Q E) :
    Ensures s (Action.flush persister) Q E := by
  by_cases hhands : ∃ a changes, s.HandsOver a changes
  · obtain ⟨a, changes, hhands⟩ := hhands
    exact hover a changes hhands
  · have hnone a changes (hhandsOver : s.HandsOver a changes) : False :=
      hhands ⟨a, changes, hhandsOver⟩
    by_cases hreadOnly : s.collection.readOnly = true
    · apply collection_bind
      rw [if_pos hreadOnly]
      exact pure (hrest (.inl hreadOnly) _ (.refl _))
    · rw [Bool.not_eq_true] at hreadOnly
      by_cases hstage : s.collection.stage = .initializing
      · apply collection_bind
        rw [hreadOnly, hstage]
        exact throw (hbusy hstage)
      · cases hloaded : s.collection.isLoaded with
        | false =>
          apply flush_unloaded hreadOnly hstage hloaded
          exact flushQueue_of_not_handsOver persister hrest hlost hcancelled hnone hreadOnly hstage
            hloaded
        | true =>
          apply flush_loaded hreadOnly hloaded
          exact flushLoaded_of_not_handsOver persister hrest hlost hincomparable hequal hnone
            hreadOnly hloaded

end Flush

theorem flush_of_atRest (h : s.collection.AtRest) (hready : s.collection.stage ≠ .initializing)
    (persister : Persister T K σ) :
    Ensures s (Action.flush persister)
      (fun _ after => after.collection = s.collection ∧ s.environment.Records after.environment)
      E := by
  apply flush
  · exact fun _ later hlater => ⟨rfl, hlater⟩
  · exact fun hunrested => absurd h hunrested
  · exact fun hbusy => absurd hbusy hready
  · exact fun hunrested => absurd h hunrested
  · exact fun hunrested => absurd h hunrested
  · exact fun session a hflushes _ => absurd h hflushes.not_atRest
  · exact fun a changes hover => absurd h hover.not_atRest

end Action.Ensures

section Source

variable {s : Setting T K σ} {persister : Persister T K σ} {a : Attachment}
variable {changes : ChangeSet T.Element K.Carrier}

theorem EnvironmentAction.source_evictCache (session : Session σ) (d : Descriptor)
    (a : Attachment) (env : Environment σ) :
    ((evictCache session d a).runOn env).2.source = env.source := by
  unfold evictCache
  split
  · simp only [runOn_bind, runOn_get]
    split
    · rfl
    · simp only [runOn_bind, runOn_modify]
      split <;> rfl
  · rfl

theorem EnvironmentAction.Ensures.evictCache {P : σ → Prop} {env : Environment σ}
    (h : P env.source) (session : Session σ) (d : Descriptor) (a : Attachment) :
    Ensures env (EnvironmentAction.evictCache session d a) (fun _ after => P after.source)
      fun _ after => P after.source := by
  rw [← source_evictCache session d a env] at h
  rw [Ensures]
  split
  next hrun =>
    rw [hrun] at h
    exact h
  next hrun =>
    rw [hrun] at h
    exact h

theorem Setting.HandsOver.source_flush (h : s.HandsOver a changes) (persister : Persister T K σ) :
    ((flush persister).runOn s).2.environment.source =
      (persister a.owner s.collection.descriptor changes s.environment.source).2 := by
  apply Ensures.after (R := fun after : Setting T K σ => after.environment.source =
    (persister a.owner s.collection.descriptor changes s.environment.source).2)
  apply Ensures.flush_of_handsOver h
  · intro source haccepted session _ later hlater
    exact .evictCache (P := fun left => left =
      (persister a.owner s.collection.descriptor changes s.environment.source).2)
      (by rw [hlater.source, haccepted]) session _ a
  · intro error source hrefused
    rw [hrefused]

theorem source_flush_of_not_handsOver (h : ∀ a changes, ¬s.HandsOver a changes) :
    ((flush persister).runOn s).2.environment.source = s.environment.source := by
  apply Ensures.after (R := fun after : Setting T K σ =>
    after.environment.source = s.environment.source)
  apply Ensures.flush
  · exact fun _ later hlater => hlater.source
  · exact fun _ _ _ => rfl
  · exact fun _ => rfl
  · exact fun _ _ _ _ => rfl
  · exact fun _ _ _ => rfl
  · exact fun session a _ _ =>
      .evictCache (P := fun source => source = s.environment.source) rfl session _ a
  · exact fun a changes hover => absurd hover (h a changes)

end Source

end LazyCollections
