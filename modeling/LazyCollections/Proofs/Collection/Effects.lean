import LazyCollections.Proofs.Collection.Handover
import LazyCollections.Proofs.Queue.Replay
import LazyCollections.Proofs.Storage.Delivery

/-!
# What actions do to a collection

Most steps of a collection neither load nor store it. They attach or detach it, note a size, work on
its queue, put contents in place of loaded ones, or find out that these are unchanged. What was
loaded has the shape of the collection, and carrying a queue out on it keeps that shape.
-/

namespace LazyCollections

set_option autoImplicit false

variable {T : ElementType} {K : Scalar} {σ α β : Type}

theorem CacheEntry.assemble_keeps {entry : CacheEntry} {shape : Shape} {a : Aggregate T K}
    (h : entry.assemble shape = .ok a) : a.shape = shape ∧ a.KeyedById := by
  rw [assemble] at h
  split at h
  next hshape =>
    obtain ⟨last, hread, h⟩ := bind_eq_ok.mp h
    cases h
    obtain ⟨hlast, hkeyed⟩ := Builder.readAll_keeps hread (Aggregate.keyedById_empty _)
    exact ⟨by rw [hlast, Builder.announce, Builder.start, Aggregate.cleared, Aggregate.shape_empty,
      Aggregate.shape_empty, hshape], hkeyed⟩
  next => cases h

def Setting.Loads (s : Setting T K σ) (a : Aggregate T K) : Prop :=
  ∃ session attachment after, s.collection.session s.environment = .ok (session, attachment) ∧
    (EnvironmentAction.loadContents session s.collection.descriptor attachment).runOn
      s.environment = (.ok a, after)

namespace EnvironmentAction

variable {env : Environment σ} {session : Session σ} {d : Descriptor} {attachment : Attachment}

theorem readCache_keeps :
    Ensures env (readCache session d attachment : EnvironmentAction σ (Option (Aggregate T K)))
      (fun found _ => ∀ a, found = some a → a.shape = d.shape ∧ a.KeyedById) fun _ _ => True := by
  rw [readCache]
  split
  next =>
    apply Ensures.get_bind
    simp only
    split
    next => exact Ensures.throw trivial
    next =>
      apply Ensures.tally_bind
      exact Ensures.pure nofun
    next bytes _ =>
      split
      next contents hread =>
        apply Ensures.tally_bind
        refine Ensures.pure ?_
        rintro _ ⟨⟩
        obtain ⟨entry, -, hassemble⟩ := bind_eq_ok.mp hread
        exact entry.assemble_keeps hassemble
      next =>
        split
        next => exact Ensures.throw trivial
        next =>
          apply Ensures.modify_bind
          apply Ensures.tally_bind
          exact Ensures.pure nofun
  next => exact Ensures.pure nofun

theorem loadContents_keeps :
    Ensures env (loadContents session d attachment : EnvironmentAction σ (Aggregate T K))
      (fun a _ => a.shape = d.shape ∧ a.KeyedById) fun _ _ => True := by
  refine readCache_keeps.bind ?_
  intro found after hfound
  cases found with
  | some contents => exact Ensures.pure (hfound contents rfl)
  | none =>
    refine Ensures.bind (Q := fun a _ => a.shape = d.shape ∧ a.KeyedById) ?_ ?_
    · apply Ensures.ask
      obtain ⟨feed, source⟩ := session.loader.load (keyOf d attachment) after.source
      cases hcontents : (feed.contents d.shape : Except Error (Aggregate T K)) with
      | error error => simp only [hcontents]
      | ok a =>
        simp only [hcontents]
        exact Feed.contents_eq_ok hcontents
    · intro a later ha
      apply Ensures.tally_bind
      exact (Ensures.anything _ _).bind fun _ _ _ => Ensures.pure ha

end EnvironmentAction

theorem Setting.Loads.eq {s : Setting T K σ} {a b : Aggregate T K} (ha : s.Loads a)
    (hb : s.Loads b) : a = b := by
  obtain ⟨session, attachment, after, hsession, hrun⟩ := ha
  obtain ⟨_, _, _, hsession', hrun'⟩ := hb
  rw [hsession] at hsession'
  cases hsession'
  rw [hrun] at hrun'
  cases hrun'
  rfl

theorem Setting.Loads.keeps {s : Setting T K σ} {a : Aggregate T K} (h : s.Loads a) :
    a.shape = s.collection.descriptor.shape ∧ a.KeyedById := by
  obtain ⟨session, attachment, after, -, hrun⟩ := h
  have hkeeps : EnvironmentAction.Ensures s.environment
      (EnvironmentAction.loadContents session s.collection.descriptor attachment :
        EnvironmentAction σ (Aggregate T K)) _ _ := EnvironmentAction.loadContents_keeps
  rw [EnvironmentAction.Ensures, hrun] at hkeeps
  exact hkeeps

/-- What a step may do to a collection that neither loads nor stores it. -/
inductive Collection.QuietChange (c : Collection T K) : Collection T K → Prop
  | same : c.QuietChange c
  | loseSession : c.QuietChange c.loseSession
  | findSession (a : Attachment) : c.QuietChange (c.findSession a)
  | detach : c.QuietChange { c.loseSession with attachment := none }
  | setReadOnly (readOnly : Bool) : c.QuietChange (c.setReadOnly readOnly)
  | noteSize (size : Option Nat) (unloaded : c.isLoaded = false) :
    c.QuietChange { c with cachedSize := size }
  | enqueue (op : QueuedOp T.Element K.Carrier) (unloaded : c.isLoaded = false) :
    c.QuietChange { c with queue := c.queue ++ [op] }
  | emptyQueue (unloaded : c.isLoaded = false) :
    c.QuietChange { c with queue := [], cachedSize := none }
  | put (contents : Aggregate T K) (loaded : c.isLoaded = true)
    (shape_eq : contents.shape = c.contents.shape)
    (keyedById : c.contents.KeyedById → contents.KeyedById) :
    c.QuietChange { c with contents, dirty := true }
  | findUnchanged (loaded : c.isLoaded = true) (equal : c.equalsSnapshot = true) :
    c.QuietChange { c with dirty := false }

/-- What ties a collection to an owner in a session, if anything does, and in which role. -/
def Collection.tie (c : Collection T K) : Option (Attachment × Role) :=
  c.attachment.map fun a => (a, c.role)

def Environment.letGo (env : Environment σ) : Option (Attachment × Role) → Environment σ
  | some (a, role) => env.release a role
  | none => env

theorem Environment.records_letGo (env : Environment σ) (tie : Option (Attachment × Role)) :
    env.Records (env.letGo tie) := by
  cases tie with
  | none => exact .refl env
  | some tie => exact env.records_release tie.1 tie.2

/-- What a probe, or a load that fails, may do to a collection: note a size, or find out that there
is no session to act in. -/
inductive Setting.ProbeChange (s : Setting T K σ) : Collection T K → Prop
  | same : s.ProbeChange s.collection
  | noteSize (size : Option Nat) (stage : s.collection.stage = .uninitialized) :
    s.ProbeChange { s.collection with cachedSize := size }
  | loseSession {error : Error} (lost : s.collection.session s.environment = .error error) :
    s.ProbeChange s.collection.loseSession

namespace Collection

variable {c c' : Collection T K}

theorem isLoaded_loseSession (c : Collection T K) : c.loseSession.isLoaded = c.isLoaded := by
  unfold loseSession
  split
  next hstage =>
    rw [isLoaded, isLoaded, hstage]
    rfl
  next => rfl

theorem attachment_loseSession (c : Collection T K) :
    c.loseSession.attachment = c.attachment := by
  unfold loseSession
  split <;> rfl

theorem descriptor_loseSession (c : Collection T K) :
    c.loseSession.descriptor = c.descriptor := by
  unfold loseSession
  split <;> rfl

theorem cachedSize_loseSession (c : Collection T K) :
    c.loseSession.cachedSize = c.cachedSize := by
  unfold loseSession
  split <;> rfl

theorem isLoaded_findSession (c : Collection T K) (a : Attachment) :
    (c.findSession a).isLoaded = c.isLoaded := by
  unfold isLoaded findSession
  cases c.stage <;> rfl

theorem setReadOnly_of_loaded (h : c.isLoaded = true) (readOnly : Bool) :
    c.setReadOnly readOnly =
      { c with readOnly, stage := if readOnly then .readOnlyInitialized else .initialized } := by
  obtain ⟨d, a, stage, contents, snapshot, dirty, size, queue, _⟩ := c
  cases stage with
  | unbound | uninitialized | initializing => cases h
  | initialized | readOnlyInitialized => cases readOnly <;> rfl

theorem setReadOnly_of_unloaded (h : c.isLoaded = false) (readOnly : Bool) :
    c.setReadOnly readOnly = { c with readOnly } := by
  obtain ⟨d, a, stage, contents, snapshot, dirty, size, queue, _⟩ := c
  cases stage with
  | unbound | uninitialized | initializing => cases readOnly <;> rfl
  | initialized | readOnlyInitialized => cases h

theorem isLoaded_setReadOnly (c : Collection T K) (readOnly : Bool) :
    (c.setReadOnly readOnly).isLoaded = c.isLoaded := by
  cases hloaded : c.isLoaded with
  | true =>
    rw [setReadOnly_of_loaded hloaded]
    cases readOnly <;> rfl
  | false =>
    rw [setReadOnly_of_unloaded hloaded]
    exact hloaded

theorem isLoaded_of_replayOnto {a : Aggregate T K} (h : c.replayOnto a = .ok c') :
    c'.isLoaded = true := by
  obtain ⟨contents, -, h⟩ := bind_eq_ok.mp h
  cases h
  unfold isLoaded
  cases c.readOnly <;> rfl

theorem attachment_of_replayOnto {a : Aggregate T K} (h : c.replayOnto a = .ok c') :
    c'.attachment = c.attachment := by
  obtain ⟨contents, -, h⟩ := bind_eq_ok.mp h
  cases h
  rfl

theorem descriptor_of_replayOnto {a : Aggregate T K} (h : c.replayOnto a = .ok c') :
    c'.descriptor = c.descriptor := by
  obtain ⟨contents, -, h⟩ := bind_eq_ok.mp h
  cases h
  rfl

namespace QuietChange

theorem of_eq (h : c' = c) : c.QuietChange c' :=
  h ▸ .same

theorem descriptor_eq (h : c.QuietChange c') : c'.descriptor = c.descriptor := by
  cases h with
  | loseSession | detach => exact c.descriptor_loseSession
  | same | findSession | setReadOnly | noteSize | enqueue | emptyQueue | put | findUnchanged => rfl

theorem isLoaded_eq (h : c.QuietChange c') : c'.isLoaded = c.isLoaded := by
  cases h with
  | same | noteSize | enqueue | emptyQueue | put | findUnchanged => rfl
  | loseSession | detach => exact c.isLoaded_loseSession
  | findSession a => exact c.isLoaded_findSession a
  | setReadOnly readOnly => exact c.isLoaded_setReadOnly readOnly

theorem setCachedSize (size : Nat) : c.QuietChange (c.setCachedSize size) := by
  rw [Collection.setCachedSize]
  split
  next => exact .same
  next hunloaded => exact .noteSize (some size) (Bool.eq_false_iff.mpr hunloaded)

end QuietChange

end Collection

namespace Action

variable {s : Setting T K σ}

/-- The action neither loads nor stores the collection, whether it succeeds or fails. -/
def Quiet (s : Setting T K σ) (action : Action T K σ α) : Prop :=
  Ensures s action (fun _ s' => s.collection.QuietChange s'.collection)
    fun _ s' => s.collection.QuietChange s'.collection

theorem Quiet.change {action : Action T K σ α} (h : Quiet s action) :
    s.collection.QuietChange (action.runOn s).2.collection :=
  Ensures.after (R := fun s' => s.collection.QuietChange s'.collection) h

end Action

namespace Setting.ProbeChange

variable {s : Setting T K σ} {c : Collection T K}

theorem quiet (h : s.ProbeChange c) : s.collection.QuietChange c := by
  cases h with
  | same => exact .same
  | noteSize size hstage => exact .noteSize size (Action.isLoaded_eq_false hstage)
  | loseSession => exact .loseSession

end Setting.ProbeChange

namespace Action

variable {s : Setting T K σ}

def OnlyProbes (s : Setting T K σ) (action : Action T K σ α) : Prop :=
  Ensures s action (fun _ s' => s.ProbeChange s'.collection) fun _ s' => s.ProbeChange s'.collection

theorem OnlyProbes.change {action : Action T K σ α} (h : OnlyProbes s action) :
    s.ProbeChange (action.runOn s).2.collection :=
  Ensures.after (R := fun s' => s.ProbeChange s'.collection) h

theorem OnlyProbes.quiet {action : Action T K σ α} (h : OnlyProbes s action) : Quiet s action :=
  h.mono (fun _ _ hchange => hchange.quiet) fun _ _ hchange => hchange.quiet

theorem onlyProbes_fastSize : OnlyProbes s fastSize := by
  apply Ensures.fastSize
  · exact .same
  · exact fun _ _ => .same
  · exact fun _ hlost => .loseSession hlost
  · intro session a hstage _ _ _ env _
    exact (EnvironmentAction.Ensures.anything env _).mono
      (fun size _ _ => .noteSize size hstage) fun _ _ _ => .same

theorem onlyProbes_probeMembership (e : T.Element) : OnlyProbes s (probeMembership e) := by
  apply Ensures.probeMembership
  · exact fun _ _ => .same
  · exact .same
  · exact fun _ hlost => .loseSession hlost
  · exact fun _ _ => .same
  · intro session a id _ _ _ env _
    exact (EnvironmentAction.Ensures.anything env _).mono (fun _ _ _ => .same) fun _ _ _ => .same

theorem onlyProbes_probeKey (k : K.Carrier) : OnlyProbes s (probeKey k) := by
  apply Ensures.probeKey
  · exact fun _ _ => .same
  · exact .same
  · exact fun _ hlost => .loseSession hlost
  · intro session a _ _ env _
    refine (EnvironmentAction.Ensures.anything env _).mono ?_ fun _ _ _ => .same
    exact fun _ _ _ => ⟨fun _ => .same, fun _ _ => ⟨fun _ _ => .same, fun _ _ => .same⟩⟩

theorem quiet_fastSize : Quiet s fastSize :=
  onlyProbes_fastSize.quiet

theorem quiet_probeMembership (e : T.Element) : Quiet s (probeMembership e) :=
  (onlyProbes_probeMembership e).quiet

theorem quiet_probeKey (k : K.Carrier) : Quiet s (probeKey k) :=
  (onlyProbes_probeKey k).quiet

theorem quiet_enqueue (op : QueuedOp T.Element K.Carrier)
    (hunloaded : s.collection.isLoaded = false) : Quiet s (enqueue op) :=
  Ensures.enqueue fun _ _ => .enqueue op hunloaded

theorem quiet_putContents {contents : Aggregate T K} (hloaded : s.collection.isLoaded = true)
    (hshape : contents.shape = s.collection.contents.shape)
    (hkeyed : s.collection.contents.KeyedById → contents.KeyedById) :
    Quiet s (putContents contents) :=
  Ensures.putContents fun _ _ => .put contents hloaded hshape hkeyed

/-- A collection that was loaded already stays as it is, and otherwise its queue is carried out on
what is loaded now. A failure does no more than a probe does. -/
theorem ensureInitialized_effect :
    Ensures s ensureInitialized
      (fun _ s' => s.collection.isLoaded = true ∧ s' = s ∨
        s.collection.stage = .uninitialized ∧
          ∃ a, s.Loads a ∧ s.collection.replayOnto a = .ok s'.collection)
      fun _ s' => s.ProbeChange s'.collection := by
  apply Ensures.ensureInitialized
  · exact fun hloaded => .inl ⟨hloaded, rfl⟩
  · exact fun _ _ => .same
  · exact fun _ hlost => .loseSession hlost
  · intro session a hstage hsession
    rw [EnvironmentAction.Ensures]
    cases hrun : (EnvironmentAction.loadContents session s.collection.descriptor a).runOn
        s.environment with
    | mk result env =>
      cases result with
      | error error => exact .same
      | ok loaded =>
        exact ⟨fun c hc later _ => .inr ⟨hstage, loaded, ⟨session, a, env, hsession, hrun⟩, hc⟩,
          fun _ => .same⟩

theorem assemble_effect (entry : CacheEntry) :
    Ensures s (assemble entry)
      (fun _ s' => s.collection.stage = .uninitialized ∧
        ∃ a, entry.assemble s.collection.descriptor.shape = .ok a ∧
          s.collection.replayOnto a = .ok s'.collection)
      fun _ s' => s' = s := by
  apply Ensures.collection_bind
  split
  next hstage =>
    refine Ensures.ofExcept_cases (fun a ha => ?_) fun _ _ => rfl
    refine Ensures.ofExcept_cases (fun c hc => ?_) fun _ _ => rfl
    exact Ensures.of_modifyCollection ⟨hstage, a, ha, hc⟩
  next => exact Ensures.throw rfl
  next => exact Ensures.throw rfl

/-- A collection is bound where there is a vacancy for it, unless it is held by an active session,
and is then released from the session before. A failure changes nothing. -/
theorem bind_effect (session : SessionId) (slot : Nat) :
    Ensures s (Action.bind session slot)
      (fun _ s' => s.collection.isLive s.environment = false ∧
        ∃ a, a.session = session ∧ a.slot = slot ∧ s.environment.Vacant a s.collection.role ∧
          s' = ⟨s.collection.findSession a,
            (s.environment.hold a s.collection.role).letGo s.collection.tie⟩)
      fun _ s' => s' = s ∧ (s.collection.isLive s.environment = false →
        s.environment.NoVacancy session slot s.collection.role) := by
  apply Ensures.collection_bind
  apply Ensures.environment_bind
  cases hlive : s.collection.isLive s.environment with
  | true =>
    simp only [if_true]
    exact Ensures.throw ⟨rfl, nofun⟩
  | false =>
    simp only [Bool.false_eq_true, if_false, true_and, forall_const]
    refine Ensures.bind (Q := fun a s₁ => a.session = session ∧ a.slot = slot ∧
      s.environment.Vacant a s.collection.role ∧
        s₁ = ⟨s.collection, s.environment.hold a s.collection.role⟩) ?_ ?_
    · refine Ensures.of_environment (EnvironmentAction.attach_ensures session slot _) ?_ ?_
      · rintro a _ ⟨hsession, hslot, hvacant, rfl⟩
        exact ⟨hsession, hslot, hvacant, rfl⟩
      · rintro error _ ⟨rfl, hoccupied⟩
        exact ⟨rfl, hoccupied⟩
    · rintro a _ ⟨hsession, hslot, hvacant, rfl⟩
      apply Ensures.modifyCollection_bind
      cases hattachment : s.collection.attachment with
      | some previous =>
        refine Ensures.of_modifyEnvironment ⟨a, hsession, hslot, hvacant, ?_⟩
        rw [Collection.tie, hattachment]
        rfl
      | none =>
        refine Ensures.pure ⟨a, hsession, hslot, hvacant, ?_⟩
        rw [Collection.tie, hattachment]
        rfl

theorem quiet_bind (session : SessionId) (slot : Nat) : Quiet s (Action.bind session slot) := by
  refine (bind_effect session slot).mono ?_ ?_
  · rintro _ _ ⟨-, a, -, -, -, rfl⟩
    exact .findSession a
  · rintro _ _ ⟨rfl, -⟩
    exact .same

theorem runOn_unbind (s : Setting T K σ) :
    unbind.runOn s = (.ok (), ⟨{ s.collection.loseSession with attachment := none },
      s.environment.letGo s.collection.tie⟩) := by
  rw [unbind, runOn_bind, runOn_collection, Collection.tie]
  cases hattachment : s.collection.attachment <;>
    simp only [hattachment, runOn_bind, runOn_modifyEnvironment] <;> rfl

theorem unbind_effect {E : Error → Setting T K σ → Prop} :
    Ensures s unbind
      (fun _ s' => s' = ⟨{ s.collection.loseSession with attachment := none },
        s.environment.letGo s.collection.tie⟩) E := by
  rw [Ensures, runOn_unbind]

theorem quiet_unbind : Quiet s unbind :=
  unbind_effect.post fun _ _ h => h ▸ .detach

end Action

/-- A flush hands the changes of loaded contents to a persister that accepts them. -/
def Setting.Stores (s : Setting T K σ) (persister : Persister T K σ) : Prop :=
  s.collection.isLoaded = true ∧ ∃ a changes source, s.HandsOver a changes ∧
    persister a.owner s.collection.descriptor changes s.environment.source = (.ok (), source)

namespace Action

variable {s : Setting T K σ} {persister : Persister T K σ}

/-- The collection is settled, also if its cache entry cannot be evicted. -/
theorem flush_of_stores (h : s.Stores persister) :
    ((flush persister).runOn s).2.collection = s.collection.settled := by
  obtain ⟨-, a, changes, source, hover, haccepted⟩ := h
  apply Ensures.after (R := fun s' => s'.collection = s.collection.settled)
  apply Ensures.flush_of_handsOver hover
  · intro source' _ session _ later _
    exact (EnvironmentAction.Ensures.anything _ _).mono (fun _ _ _ => rfl) fun _ _ _ => rfl
  · intro error source' hrefused
    rw [haccepted] at hrefused
    cases hrefused

theorem quiet_flush (h : ¬s.Stores persister) : Quiet s (flush persister) := by
  have hsettled (hunloaded : s.collection.isLoaded = false) :
      s.collection.QuietChange s.collection.settled := by
    rw [Collection.settled_of_unloaded hunloaded]
    exact .emptyQueue hunloaded
  apply Ensures.flush
  · exact fun _ _ _ => .same
  · exact fun _ _ _ => .loseSession
  · exact fun _ => .same
  · exact fun _ _ _ _ => .same
  · exact fun _ hloaded hequal => .findUnchanged hloaded hequal
  · intro session a hflushes _
    exact (EnvironmentAction.Ensures.anything _ _).mono
      (fun _ _ _ => hsettled hflushes.unloaded) fun _ _ _ => hsettled hflushes.unloaded
  · intro a changes hover
    apply Ensures.flush_of_handsOver hover
    · intro source haccepted session _ later _
      have hunloaded : s.collection.isLoaded = false :=
        Bool.eq_false_iff.mpr fun hloaded => h ⟨hloaded, a, changes, source, hover, haccepted⟩
      exact (EnvironmentAction.Ensures.anything _ _).mono
        (fun _ _ _ => hsettled hunloaded) fun _ _ _ => hsettled hunloaded
    · exact fun _ _ _ => .same

end Action

end LazyCollections
