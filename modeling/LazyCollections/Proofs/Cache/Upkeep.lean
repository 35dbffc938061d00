import LazyCollections.Proofs.Cache.Coherence
import LazyCollections.Proofs.Collection.Handover
import LazyCollections.Proofs.Collection.Upholding

/-!
# Collections that keep the cache coherent

Whatever is done with a collection, whether it succeeds or fails, leaves a cache that agrees with
the store: loading puts only what was just loaded, and a flush evicts the entry of the collection
after it has written.
-/

namespace LazyCollections

set_option autoImplicit false

variable {κ : Type}

/-- The collection is one of the role, in an environment that is coherent. -/
structure Setting.CoherentFor (S : CachedRoles κ) (k : κ) (s : S.SettingOf k) : Prop where
  descriptor : s.collection.descriptor = S.descriptor k
  coherent : s.environment.Coherent S []

namespace Setting.CoherentFor

open LazyCollections.Action

variable {S : CachedRoles κ} {k : κ} {s : S.SettingOf k}

theorem loseSession (h : s.CoherentFor S k) :
    Setting.CoherentFor S k { s with collection := s.collection.loseSession } where
  descriptor := by
    rw [← h.descriptor, Collection.loseSession]
    split <;> rfl
  coherent := h.coherent

theorem hosted (h : s.CoherentFor S k) {session : Session Database} {a : Attachment}
    (hsession : s.collection.session s.environment = .ok (session, a)) :
    session.loader = Database.loader ∧ session.cached = true :=
  h.coherent.hosted session
    (List.mem_of_getElem? (Collection.session_eq_ok hsession).2.1)

theorem ensureInitialized_ensures (h : s.CoherentFor S k) :
    Ensures s ensureInitialized
      (fun _ s' => s'.CoherentFor S k ∧ (s.collection.stage = .uninitialized →
        s.environment.AgreesWithStorage S → ∃ a loaded, s.collection.attachment = some a ∧
          s.environment.source.store.contents (S.key k a.owner) (S.descriptor k).shape =
            .ok loaded ∧ s.collection.replayOnto loaded = .ok s'.collection))
      fun _ s' => s'.CoherentFor S k := by
  apply Ensures.ensureInitialized
  · intro hloaded
    refine ⟨h, fun hstage => ?_⟩
    rw [Collection.isLoaded, hstage] at hloaded
    cases hloaded
  · exact fun _ _ => h
  · exact fun _ _ => h.loseSession
  · intro session a _ hsession
    rw [h.descriptor]
    refine (EnvironmentAction.loadContents_ensures h.coherent (h.hosted hsession).1).mono ?_ ?_
    · intro loaded env hloaded
      refine ⟨?_, fun _ => ⟨h.descriptor, hloaded.1⟩⟩
      intro c hc later hlater
      obtain ⟨contents, _, hc'⟩ := bind_eq_ok.mp hc
      refine ⟨⟨?_, hloaded.1.records hlater⟩, fun _ hagrees => ?_⟩
      · cases hc'
        exact h.descriptor
      · exact ⟨a, loaded, (Collection.session_eq_ok hsession).1, hloaded.2 hagrees, hc⟩
    · intro error env henv
      exact ⟨h.descriptor, henv⟩

theorem records (h : s.CoherentFor S k) {later : Environment Database}
    (hlater : s.environment.Records later) : Setting.CoherentFor S k ⟨s.collection, later⟩ where
  descriptor := h.descriptor
  coherent := h.coherent.records hlater

theorem withCollection (h : s.CoherentFor S k)
    {c : Collection (S.kind k).element (S.kind k).key}
    (hc : c.descriptor = s.collection.descriptor) :
    Setting.CoherentFor S k { s with collection := c } where
  descriptor := hc.trans h.descriptor
  coherent := h.coherent

theorem enqueue_ensures (h : s.CoherentFor S k)
    (op : QueuedOp (S.kind k).element.Element (S.kind k).key.Carrier) :
    Ensures s (enqueue op) (fun _ => CoherentFor S k) fun _ => CoherentFor S k := by
  apply Ensures.enqueue
  intro later hlater
  exact (h.records hlater).withCollection rfl

theorem putContents_ensures (h : s.CoherentFor S k) (contents : S.Contents k) :
    Ensures s (putContents contents) (fun _ => CoherentFor S k) fun _ => CoherentFor S k := by
  apply Ensures.putContents
  intro later hlater
  exact (h.records hlater).withCollection rfl

theorem asked (h : s.CoherentFor S k) {α : Type} {question : Store → Except Error α × Store}
    (hq : ∀ store : Store, store.Agrees (question store).2) {env : Environment Database}
    (henv : s.environment.Notes env) :
    EnvironmentAction.Ensures env (.ask (Database.onStore question))
      (fun _ after => Setting.CoherentFor S k ⟨s.collection, after⟩)
      fun _ after => Setting.CoherentFor S k ⟨s.collection, after⟩ :=
  (EnvironmentAction.ask_ensures (h.records henv.records).coherent hq).mono
    (fun _ _ hafter => ⟨h.descriptor, hafter⟩) fun _ _ hafter => ⟨h.descriptor, hafter⟩

theorem keeps_fastSize (S : CachedRoles κ) (k : κ) : Keeps (CoherentFor S k) fastSize := by
  intro s h
  apply Ensures.fastSize
  · exact h
  · exact fun _ _ => h
  · exact fun _ _ => h.loseSession
  · intro session a _ _ _ hsession env henv
    simp only [(h.hosted hsession).1, Database.loader]
    exact (h.asked (fun store => store.agrees_probe _ _) henv).mono
      (fun _ _ hafter => hafter.withCollection rfl) fun _ _ hafter => hafter

theorem keeps_probeMembership (S : CachedRoles κ) (k : κ) (e : (S.kind k).element.Element) :
    Keeps (CoherentFor S k) (probeMembership e) := by
  intro s h
  apply Ensures.probeMembership
  · exact fun _ _ => h
  · exact h
  · exact fun _ _ => h.loseSession
  · exact fun _ _ => h
  · intro session a id _ hsession _ env henv
    simp only [(h.hosted hsession).1, Database.loader]
    exact h.asked (fun store => store.agrees_probe _ _) henv

theorem keeps_probeKey (S : CachedRoles κ) (k : κ) (key : (S.kind k).key.Carrier) :
    Keeps (CoherentFor S k) (probeKey key) := by
  intro s h
  apply Ensures.probeKey
  · exact fun _ _ => h
  · exact h
  · exact fun _ _ => h.loseSession
  · intro session a _ hsession env henv
    simp only [(h.hosted hsession).1, Database.loader]
    refine (h.asked (fun store => store.agrees_probe _ _) henv).mono ?_ fun _ _ hafter => hafter
    exact fun _ _ hafter => ⟨fun _ => hafter, fun _ _ => ⟨fun _ _ => hafter, fun _ _ => hafter⟩⟩

theorem upholds (S : CachedRoles κ) (k : κ) :
    Upholds (CoherentFor S k) (CoherentFor S k) fun _ => CoherentFor S k where
  settle h := h
  of_loaded h := h
  load h := by
    apply Ensures.loadedContents
    exact h.ensureInitialized_ensures.post fun _ _ h => h.1
  put h _ _ := h.putContents_ensures _
  fastSize := keeps_fastSize S k
  queueClear h _ := h.enqueue_ensures _

theorem upholdsList (S : CachedRoles κ) (k : κ) :
    UpholdsList (CoherentFor S k) (CoherentFor S k) fun _ => CoherentFor S k where
  toUpholds := upholds S k
  queueAdd _ h _ := h.enqueue_ensures _
  probe e h _ := (keeps_probeMembership S k e _ h).post
    fun _ _ hafter => ⟨hafter, fun _ => hafter.enqueue_ensures _⟩

theorem upholdsSet (S : CachedRoles κ) (k : κ) :
    UpholdsSet (CoherentFor S k) (CoherentFor S k) fun _ => CoherentFor S k where
  toUpholds := upholds S k
  probe e h _ := (keeps_probeMembership S k e _ h).post
    fun _ _ hafter => ⟨hafter, fun _ => hafter.enqueue_ensures _, fun _ => hafter.enqueue_ensures _⟩

theorem upholdsMap (S : CachedRoles κ) (k : κ) :
    UpholdsMap (CoherentFor S k) (CoherentFor S k) fun _ => CoherentFor S k where
  toUpholds := upholds S k
  probe key h _ := (keeps_probeKey S k key _ h).post
    fun _ _ hafter => ⟨hafter, fun _ _ => hafter.enqueue_ensures _,
      fun _ _ => ⟨hafter.enqueue_ensures _, fun _ => hafter.enqueue_ensures _⟩⟩

/-- After the persister has worked, the entry of the collection may be stale. -/
theorem coherent_of_persister (h : s.CoherentFor S k) {a : Attachment}
    {changes : ChangeSet (S.kind k).element.Element (S.kind k).key.Carrier} {source : Database}
    (hpersist : Database.persister a.owner s.collection.descriptor changes s.environment.source =
      (.ok (), source)) :
    ({ s.environment with source } : Environment Database).Coherent S [S.key k a.owner] := by
  refine h.coherent.withSource (List.nil_subset _) ?_
  intro key hkey
  rw [List.mem_singleton, CachedRoles.key, ← h.descriptor] at hkey
  exact Database.rows?_persister_of_ne hpersist hkey

theorem withSource (h : s.CoherentFor S k) {source : Database}
    (hstore : source.store = s.environment.source.store) :
    Setting.CoherentFor S k { s with environment := { s.environment with source } } where
  descriptor := h.descriptor
  coherent := h.coherent.withSource (List.nil_subset _) fun _ _ => by rw [hstore]

theorem evictCache_ensures (h : s.CoherentFor S k) {stale : List CollectionKey}
    {env : Environment Database} (hcoherent : env.Coherent S stale) {session : Session Database}
    {a : Attachment} (hstale : ∀ key ∈ stale, key = S.key k a.owner)
    (hcached : session.cached = true)
    {E : Error → Environment Database → Prop} :
    EnvironmentAction.Ensures env (.evictCache session s.collection.descriptor a)
      (fun _ after => Setting.CoherentFor S k ⟨s.collection.settled, after⟩) E := by
  rw [h.descriptor]
  refine (EnvironmentAction.evictCache_ensures hcoherent hstale hcached).mono ?_
    fun _ _ herror => herror
  exact fun _ _ hafter => ⟨s.collection.descriptor_settled.trans h.descriptor, hafter⟩

theorem keeps_flush (S : CachedRoles κ) (k : κ) :
    Keeps (CoherentFor S k) (flush Database.persister) := by
  intro s h
  apply Ensures.flush
  · exact fun _ later hlater => h.records hlater
  · exact fun _ _ _ => h.loseSession
  · exact fun _ => h
  · exact fun _ _ _ _ => h
  · exact fun _ _ _ => h.withCollection rfl
  · intro session a hflushes _
    exact h.evictCache_ensures h.coherent (fun key hkey => absurd hkey List.not_mem_nil)
      (h.hosted hflushes.session).2
  · intro a changes hover
    apply Ensures.flush_of_handsOver hover
    · intro source hpersist session hsession later hlater
      exact h.evictCache_ensures ((h.coherent_of_persister hpersist).records hlater)
        (fun key hkey => List.mem_singleton.mp hkey) (h.hosted hsession).2
    · intro error source hpersist
      exact h.withSource (Database.store_of_persister_error hpersist)

/-- An entry that the caller hands in is not put into the cache. -/
theorem keeps_assemble (S : CachedRoles κ) (k : κ) (entry : CacheEntry) :
    Keeps (CoherentFor S k) (assemble entry) := by
  intro s h
  apply Ensures.collection_bind
  split
  next =>
    refine Ensures.ofExcept_cases (fun loaded _ => ?_) fun _ _ => h
    refine Ensures.ofExcept_cases (fun c hc => ?_) fun _ _ => h
    obtain ⟨contents, _, hc⟩ := bind_eq_ok.mp hc
    cases hc
    exact Ensures.of_modifyCollection (h.withCollection rfl)
  next => exact Ensures.throw h
  next => exact Ensures.throw h

theorem keeps_disassemble (S : CachedRoles κ) (k : κ) : Keeps (CoherentFor S k) disassemble := by
  intro s h
  refine (h.ensureInitialized_ensures.post fun _ _ hafter => hafter.1).bind ?_
  intro _ after hafter
  apply Ensures.collection_bind
  exact Keeps.ofExcept _ after hafter

theorem keeps_bind (S : CachedRoles κ) (k : κ) (session : SessionId) (slot : Nat) :
    Keeps (CoherentFor S k) (Action.bind session slot) := by
  have hattach : Keeps (CoherentFor S k)
      (onEnvironment (EnvironmentAction.attach session slot (S.descriptor k).role)) :=
    fun s h => Ensures.of_environment
      (EnvironmentAction.onlyRecords_attach session slot _ s.environment)
      (fun _ _ hafter => h.records hafter) fun _ _ hafter => h.records hafter
  intro s h
  apply Ensures.collection_bind
  apply Ensures.environment_bind
  rw [Collection.role, h.descriptor]
  by_cases hlive : s.collection.isLive s.environment = true
  · simp only [hlive, if_true]
    exact Ensures.throw h
  · simp only [hlive]
    refine (hattach s h).bind ?_
    intro a s₁ h₁
    refine Ensures.bind (Q := fun _ => CoherentFor S k)
      (Ensures.of_modifyCollection (h₁.withCollection rfl)) ?_
    intro _ s₂ h₂
    split
    next previous _ =>
      exact Ensures.of_modifyEnvironment (h₂.records (s₂.environment.records_release previous _))
    next => exact Ensures.pure h₂

theorem keeps_unbind (S : CachedRoles κ) (k : κ) : Keeps (CoherentFor S k) unbind := by
  have hlose : Keeps (CoherentFor S k)
      (modifyCollection fun c => { c.loseSession with attachment := none }) :=
    fun s h => Ensures.of_modifyCollection (h.loseSession.withCollection rfl)
  intro s h
  apply Ensures.collection_bind
  split
  next previous _ =>
    refine Ensures.bind (Q := fun _ => CoherentFor S k)
      (Ensures.of_modifyEnvironment (h.records (s.environment.records_release previous _))) ?_
    exact fun _ after hafter => hlose after hafter
  next => exact hlose s h

end Setting.CoherentFor

end LazyCollections
