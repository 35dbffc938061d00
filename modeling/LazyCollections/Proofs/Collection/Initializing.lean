import LazyCollections.Proofs.Cache.Entries
import LazyCollections.Proofs.Collection.Effects

/-!
# Ways to initialize a collection

An unloaded collection is initialized with contents that its loader streams, that the cache holds in
encoded form, or that the caller provides as a cache entry. Each way gives the same contents, so the
collection ends in the same state, and if its queue cannot be carried out on them each way fails
alike and leaves it as it was.
-/

namespace LazyCollections

set_option autoImplicit false

variable {T : ElementType} {K : Scalar} {σ : Type}

/-- Rows that are read as the slots or entries of contents. Only the slots of a sequence stand in
order. -/
inductive DeliversRows : List (RowSlot × Value) → Aggregate T K → Prop
  | sequence {values : List Value} {slots : List (Option T.Element)}
    (read : List.Forall₂ (fun v slot => T.internalizeSlot v = .ok slot) values slots) :
    DeliversRows (values.zipIdx.map fun r => (.index r.2, r.1)) (.sequence slots)
  | set {values : List Value} {entries : List (T.Id × T.Element)} {items : SortedMap T.Id T.Element}
    (order : entries.Perm items.entries)
    (read : List.Forall₂ (fun v e => T.internalizeSlot v = .ok (some e.2)) values entries) :
    DeliversRows (values.map fun v => (.unordered, v)) (.set items)
  | keyed {rows : List (Value × Value)} {entries : List (K.Carrier × T.Element)}
    {items : SortedMap K.Carrier T.Element} (order : entries.Perm items.entries)
    (read : List.Forall₂ (fun r e => K.fromValue? r.1 = some e.1 ∧
      T.internalizeSlot r.2 = .ok (some e.2)) rows entries) :
    DeliversRows (rows.map fun r => (.key r.1, r.2)) (.keyed items)

theorem DeliversRows.foldlM_addRow {rows : List (RowSlot × Value)} {a : Aggregate T K}
    (h : DeliversRows rows a) (ha : a.KeyedById) :
    rows.foldlM (fun a r => Builder.addRow a r.1 r.2) (.empty a.shape) = .ok a := by
  cases h with
  | sequence read =>
    rw [List.foldlM_map]
    exact Builder.foldlM_addRow_sequence read []
  | @set values entries items order read =>
    have helements : List.Forall₂ (fun v e => T.internalizeSlot v = .ok (some e)) values
        (entries.map Prod.snd) := List.forall₂_map_right_iff.mpr read
    have hbuilt := Builder.foldlM_addRow_set (K := K) helements ∅
    rw [List.map_map] at hbuilt
    rw [List.foldlM_map]
    exact hbuilt.trans (congrArg (fun m => Except.ok (Aggregate.set m)) (ha.ofList_eq order))
  | @keyed rows entries items order read =>
    have hitems : SortedMap.ofList entries = items := SortedMap.ofList_eq fun _ => order.mem_iff
    rw [List.foldlM_map]
    exact (Builder.foldlM_addRow_keyed read ∅).trans
      (congrArg (fun m => Except.ok (Aggregate.keyed m)) hitems)

namespace Feed

/-- The feed of the given rows, which may announce their number first. -/
def ofRows (announced : Option Nat) (rows : List (RowSlot × Value)) : Feed where
  events := announced.toList.map .announce ++ rows.map fun r => .row r.1 r.2
  failure := none

theorem contents_ofRows {rows : List (RowSlot × Value)} {a : Aggregate T K}
    (h : DeliversRows rows a) (ha : a.KeyedById) (announced : Option Nat) :
    (ofRows announced rows).contents a.shape = .ok a := by
  have hstart : (announced.toList.map FeedEvent.announce).foldlM step
      (Builder.start a.shape : Builder T K) = .ok ⟨.empty a.shape, announced⟩ := by
    cases announced with
    | none => rfl
    | some size =>
      have hcleared : (Aggregate.empty a.shape : Aggregate T K).cleared = .empty a.shape := by
        rw [Aggregate.cleared, Aggregate.shape_empty]
      exact congrArg (fun b => Except.ok (Builder.mk b (some size))) hcleared
  have hread := h.foldlM_addRow ha
  have hevents : (ofRows announced rows).events.foldlM step
      (Builder.start a.shape : Builder T K) = .ok ⟨a, announced⟩ := by
    rw [ofRows, List.foldlM_append, hstart]
    exact (foldlM_step_rows rows _).trans (by rw [hread]; rfl)
  rw [contents, hevents]
  rfl

end Feed

/-- Scalars are stored as plain values, neither arrays nor maps. -/
def Scalar.Plain (S : Scalar) : Prop :=
  ∀ s : S.Carrier, (S.toValue s).depth = 0

theorem Value.canonical_eq_of_depth {v : Value} (h : v.depth = 0) : v.canonical = v := by
  cases v with
  | array items => cases h
  | map entries => cases h
  | null | bool b | integer n | bytes bs | text s => rfl

theorem Scalar.Restores.restoresCanonical {S : Scalar} (h : S.Restores) (hplain : S.Plain) :
    S.RestoresCanonical := by
  intro s
  rw [Value.canonical_eq_of_depth (hplain s)]
  exact h s

namespace Collection

/-- The loader of the session streams the contents, and the cache is not read or holds nothing. -/
def Streams (c : Collection T K) (env : Environment σ) (a : Aggregate T K) : Prop :=
  ∃ session attachment announced rows source,
    c.session env = .ok (session, attachment) ∧
    ((EnvironmentAction.usesCache session c.descriptor && session.config.cacheMode.reads) = true →
      env.cache.get? (EnvironmentAction.keyOf c.descriptor attachment) = .ok none) ∧
    session.loader.load (EnvironmentAction.keyOf c.descriptor attachment) env.source =
      (Feed.ofRows announced rows, source) ∧
    DeliversRows rows a

def ReadsCached (c : Collection T K) (env : Environment σ) (bytes : List UInt8) : Prop :=
  ∃ session attachment, c.session env = .ok (session, attachment) ∧
    (EnvironmentAction.usesCache session c.descriptor && session.config.cacheMode.reads) = true ∧
    env.cache.get? (EnvironmentAction.keyOf c.descriptor attachment) = .ok (some bytes)

def loadedWith (c : Collection T K) (loaded contents : Aggregate T K) : Collection T K :=
  { c with
    contents
    snapshot := if c.descriptor.options.dirtyChecking then some loaded.deepCopy else none
    dirty := !c.queue.isEmpty
    queue := []
    cachedSize := none
    stage := if c.readOnly then .readOnlyInitialized else .initialized }

theorem replayOnto_eq (c : Collection T K) (a : Aggregate T K) :
    c.replayOnto a = (replay c.queue a).map (c.loadedWith a) := by
  cases h : replay c.queue a <;> simp only [replayOnto, h] <;> rfl

/-- What initializing the collection with the contents `a` comes to: the queue is carried out on
them, and if that fails nothing has changed. -/
def InitializesWith (c : Collection T K) (a : Aggregate T K)
    (outcome : Except Error Unit × Setting T K σ) : Prop :=
  match replay c.queue a with
  | .ok contents => outcome.1 = .ok () ∧ outcome.2.collection = c.loadedWith a contents
  | .error error => outcome.1 = .error error ∧ outcome.2.collection = c

end Collection

namespace EnvironmentAction

variable {env : Environment σ} {session : Session σ} {d : Descriptor} {attachment : Attachment}
variable {contents : Aggregate T K}

theorem readCache_of_missing
    (h : (usesCache session d && session.config.cacheMode.reads) = true →
      env.cache.get? (keyOf d attachment) = .ok none) :
    Ensures env (readCache session d attachment : EnvironmentAction σ (Option (Aggregate T K)))
      (fun found after => found = none ∧ after.source = env.source) fun _ _ => False := by
  rw [readCache]
  split
  next hreads =>
    apply Ensures.get_bind
    simp only [h hreads]
    apply Ensures.tally_bind
    exact Ensures.pure ⟨rfl, rfl⟩
  next => exact Ensures.pure ⟨rfl, rfl⟩

theorem readCache_of_held {bytes : List UInt8}
    (hreads : (usesCache session d && session.config.cacheMode.reads) = true)
    (hget : env.cache.get? (keyOf d attachment) = .ok (some bytes))
    (h : (CacheEntry.decode bytes >>= fun entry => entry.assemble d.shape) = .ok contents) :
    Ensures env (readCache session d attachment : EnvironmentAction σ (Option (Aggregate T K)))
      (fun found _ => found = some contents) fun _ _ => False := by
  rw [readCache, if_pos hreads]
  apply Ensures.get_bind
  simp only [hget, h]
  apply Ensures.tally_bind
  exact Ensures.pure rfl

theorem writeCache_succeeds :
    Ensures env (writeCache session d attachment contents) (fun _ _ => True) fun _ _ => False := by
  rw [writeCache]
  split
  next =>
    split
    next => exact Ensures.pure trivial
    next =>
      apply Ensures.get_bind
      split
      next => exact Ensures.pure trivial
      next => exact Ensures.modify_bind (Ensures.tally trivial)
  next => exact Ensures.pure trivial

theorem loadContents_of_feed {feed : Feed} {source : σ}
    (hmissing : (usesCache session d && session.config.cacheMode.reads) = true →
      env.cache.get? (keyOf d attachment) = .ok none)
    (hload : session.loader.load (keyOf d attachment) env.source = (feed, source))
    (hcontents : feed.contents d.shape = .ok contents) :
    Ensures env (loadContents session d attachment : EnvironmentAction σ (Aggregate T K))
      (fun loaded _ => loaded = contents) fun _ _ => False := by
  refine (readCache_of_missing hmissing).bind ?_
  rintro _ after ⟨rfl, hsource⟩
  refine Ensures.bind (Q := fun loaded _ => loaded = contents) (Ensures.ask ?_) ?_
  · simp only [hsource, hload, hcontents]
  · rintro _ later rfl
    apply Ensures.tally_bind
    exact writeCache_succeeds.bind fun _ _ _ => Ensures.pure rfl

theorem loadContents_of_held {bytes : List UInt8}
    (hreads : (usesCache session d && session.config.cacheMode.reads) = true)
    (hget : env.cache.get? (keyOf d attachment) = .ok (some bytes))
    (h : (CacheEntry.decode bytes >>= fun entry => entry.assemble d.shape) = .ok contents) :
    Ensures env (loadContents session d attachment : EnvironmentAction σ (Aggregate T K))
      (fun loaded _ => loaded = contents) fun _ _ => False := by
  refine (readCache_of_held hreads hget h).bind ?_
  rintro _ after rfl
  exact Ensures.pure rfl

end EnvironmentAction

namespace Setting

variable {c : Collection T K} {env : Environment σ} {a : Aggregate T K}

theorem loads_of_loadContents {session : Session σ} {attachment : Attachment}
    (hsession : c.session env = .ok (session, attachment))
    (h : EnvironmentAction.Ensures env
      (EnvironmentAction.loadContents session c.descriptor attachment)
      (fun loaded _ => loaded = a) fun _ _ => False) : (⟨c, env⟩ : Setting T K σ).Loads a := by
  rw [EnvironmentAction.Ensures] at h
  cases hrun : (EnvironmentAction.loadContents session c.descriptor attachment :
      EnvironmentAction σ (Aggregate T K)).runOn env with
  | mk result after =>
    rw [hrun] at h
    cases result with
    | error error => exact h.elim
    | ok loaded => exact ⟨session, attachment, after, hsession, h ▸ hrun⟩

theorem loads_of_streams (h : c.Streams env a) (ha : a.KeyedById)
    (hshape : a.shape = c.descriptor.shape) : (⟨c, env⟩ : Setting T K σ).Loads a := by
  obtain ⟨session, attachment, announced, rows, source, hsession, hmissing, hload, hrows⟩ := h
  have hcontents := Feed.contents_ofRows hrows ha announced
  rw [hshape] at hcontents
  exact loads_of_loadContents hsession
    (EnvironmentAction.loadContents_of_feed hmissing hload hcontents)

theorem loads_of_readsCached {bytes : List UInt8} {entry : CacheEntry} (h : c.ReadsCached env bytes)
    (hdecode : CacheEntry.decode bytes = .ok entry)
    (hassemble : entry.assemble c.descriptor.shape = .ok a) :
    (⟨c, env⟩ : Setting T K σ).Loads a := by
  obtain ⟨session, attachment, hsession, hreads, hget⟩ := h
  have hread : (CacheEntry.decode bytes >>= fun entry => entry.assemble c.descriptor.shape) =
      .ok a := bind_eq_ok.mpr ⟨entry, hdecode, hassemble⟩
  exact loads_of_loadContents hsession
    (EnvironmentAction.loadContents_of_held hreads hget hread)

end Setting

namespace Collection

variable {c : Collection T K} {env : Environment σ} {a : Aggregate T K}

/-- How an initialization ends is decided by how the load ends. -/
theorem ensureInitialized_of_load {session : Session σ} {attachment : Attachment}
    {loaded : Except Error (Aggregate T K) × Environment σ} (hstage : c.stage = .uninitialized)
    (hsession : c.session env = .ok (session, attachment))
    (hload : (EnvironmentAction.loadContents session c.descriptor attachment).runOn env = loaded) :
    (Action.ensureInitialized.runOn ⟨c, env⟩).1 =
        (loaded.1 >>= c.replayOnto).map (fun _ => ()) ∧
      (Action.ensureInitialized.runOn ⟨c, env⟩).2.collection =
        (loaded.1 >>= c.replayOnto).toOption.getD c ∧
      loaded.2.Notes (Action.ensureInitialized.runOn ⟨c, env⟩).2.environment := by
  have hends : Action.Ensures ⟨c, env⟩ Action.ensureInitialized
      (fun _ s => loaded.1 >>= c.replayOnto = .ok s.collection ∧ loaded.2.Notes s.environment)
      fun error s => loaded.1 >>= c.replayOnto = .error error ∧ s.collection = c ∧
        loaded.2.Notes s.environment := by
    apply Action.Ensures.ensureInitialized_replaying
    · intro hloaded
      rw [isLoaded, hstage] at hloaded
      cases hloaded
    · exact fun _ hunable => absurd hstage hunable
    · intro error hlost
      cases hsession.symm.trans hlost
    · intro session' attachment' _ hsession'
      obtain ⟨rfl, rfl⟩ := Prod.mk.inj (Except.ok.inj (hsession.symm.trans hsession'))
      rw [EnvironmentAction.Ensures, hload]
      obtain ⟨result, after⟩ := loaded
      cases result with
      | ok contents => exact ⟨fun _ hc _ hlater => ⟨hc, hlater⟩, fun _ h => ⟨h, rfl, .refl after⟩⟩
      | error error => exact ⟨rfl, rfl, .refl after⟩
  refine hends.elim
    (G := fun outcome s => outcome = (loaded.1 >>= c.replayOnto).map (fun _ => ()) ∧
      s.collection = (loaded.1 >>= c.replayOnto).toOption.getD c ∧
      loaded.2.Notes s.environment) ?_ ?_
  · rintro _ s ⟨hc, hnotes⟩
    rw [hc]
    exact ⟨rfl, rfl, hnotes⟩
  · rintro error s ⟨herror, hc, hnotes⟩
    rw [herror]
    exact ⟨rfl, hc, hnotes⟩

theorem initializesWith_of_replayOnto {outcome : Except Error Unit × Setting T K σ}
    (hresult : outcome.1 = (c.replayOnto a).map fun _ => ())
    (hcollection : outcome.2.collection = (c.replayOnto a).toOption.getD c) :
    c.InitializesWith a outcome := by
  rw [replayOnto_eq] at hresult hcollection
  rw [InitializesWith]
  cases hreplay : replay c.queue a with
  | ok contents =>
    rw [hreplay] at hresult hcollection
    exact ⟨hresult, hcollection⟩
  | error error =>
    rw [hreplay] at hresult hcollection
    exact ⟨hresult, hcollection⟩

theorem initializesWith_of_loads (hstage : c.stage = .uninitialized)
    (hloads : (⟨c, env⟩ : Setting T K σ).Loads a) :
    c.InitializesWith a (Action.ensureInitialized.runOn ⟨c, env⟩) := by
  obtain ⟨session, attachment, after, hsession, hrun⟩ := hloads
  obtain ⟨hresult, hcollection, -⟩ := ensureInitialized_of_load hstage hsession hrun
  exact initializesWith_of_replayOnto hresult hcollection

theorem initializesWith_of_assemble {entry : CacheEntry} (hstage : c.stage = .uninitialized)
    (h : entry.assemble c.descriptor.shape = .ok a) (env : Environment σ) :
    c.InitializesWith a ((Action.assemble entry).runOn ⟨c, env⟩) := by
  have hrun : (Action.assemble entry).runOn ⟨c, env⟩ =
      ((c.replayOnto a).map fun _ => (), ⟨(c.replayOnto a).toOption.getD c, env⟩) := by
    simp only [Action.assemble, Action.runOn_bind, Action.runOn_collection, hstage,
      Action.runOn_ofExcept, h]
    cases c.replayOnto a with
    | ok initialized => rfl
    | error error => rfl
  rw [hrun]
  exact initializesWith_of_replayOnto rfl rfl

/-- An uninitialized collection ends in one state however it is initialized with contents: from its
loader, from the cache, or from the cache entry of the contents. -/
theorem initializations_agree (hT : T.StorableCanonical) (hK : K.Restores) (hplain : K.Plain)
    (c : Collection T K) (hstage : c.stage = .uninitialized) (a : Aggregate T K)
    (ha : a.KeyedById) (hshape : a.shape = c.descriptor.shape) (entry : CacheEntry)
    (hentry : CacheEntry.ofAggregate a = .ok entry) (bytes : List UInt8)
    (hencode : entry.encode = .ok bytes) (hsize : bytes.length < UInt64.size)
    (hdepth : entry.toValue.depth ≤ Value.depthLimit) :
    (∀ env : Environment σ, c.Streams env a →
      c.InitializesWith a (Action.ensureInitialized.runOn ⟨c, env⟩)) ∧
    (∀ env : Environment σ, c.ReadsCached env bytes →
      c.InitializesWith a (Action.ensureInitialized.runOn ⟨c, env⟩)) ∧
    ∃ decoded, CacheEntry.decode bytes = .ok decoded ∧ ∀ env : Environment σ,
      c.InitializesWith a ((Action.assemble decoded).runOn ⟨c, env⟩) := by
  have hdecode := CacheEntry.decode_of_encode hencode hsize hdepth
  have hassemble := CacheEntry.assemble_canonical hT (hK.restoresCanonical hplain) ha hentry
  rw [hshape] at hassemble
  refine ⟨?_, ?_, entry.canonical, hdecode, ?_⟩
  · intro env hstreams
    exact initializesWith_of_loads hstage (Setting.loads_of_streams hstreams ha hshape)
  · intro env hreads
    exact initializesWith_of_loads hstage
      (Setting.loads_of_readsCached hreads hdecode hassemble)
  · exact fun env => initializesWith_of_assemble hstage hassemble env

end Collection

/-- A session that uses the cache, on a loader that answers every load with one feed. -/
def Environment.keeping (feed : Feed) (region : Region) : Environment Unit where
  sessions :=
    [{ config := {}
       loader := .ofFeed feed
       cached := true
       owners := [⟨.filled 0, false⟩] }]
  cache := { region }
  source := ()

def Collection.growingNotes : Collection (.ofScalar .text) .unkeyed :=
  { Collection.unloaded ⟨⟨"Order.notes"⟩, .sequence, { cacheable := true }⟩
      ⟨⟨0⟩, 0, .filled 0⟩ false with
    queue := [.add .unordered "urgent"] }

def Aggregate.gappedNotes : Aggregate (.ofScalar .text) .unkeyed :=
  .sequence [some "a", none, some "b"]

def CacheEntry.gappedNotes : CacheEntry :=
  .sequence [.text "a", .null, .text "b"]

def CacheEntry.gappedBytes : List UInt8 :=
  [0xa3, 0x64, 107, 101, 121, 115, 0x80, 0x65, 115, 104, 97, 112, 101, 0x68, 115, 101, 113, 117,
    101, 110, 99, 101, 0x68, 101, 108, 101, 109, 101, 110, 116, 115, 0x83, 0x61, 97, 0xf6, 0x61, 98]

def Feed.gappedNotes : Feed :=
  .ofRows (some 3) [(.index 0, .text "a"), (.index 1, .null), (.index 2, .text "b")]

def Region.gappedNotes : Region :=
  (Region.empty none).inject ⟨⟨"Order.notes"⟩, .filled 0⟩ CacheEntry.gappedBytes

theorem Collection.streams_growingNotes :
    growingNotes.Streams (.keeping .gappedNotes (.empty none)) .gappedNotes := by
  have hread : List.Forall₂
      (fun v slot => (ElementType.ofScalar .text).internalizeSlot v = .ok slot)
      [.text "a", .null, .text "b"] [some "a", none, some "b"] :=
    .cons rfl (.cons rfl (.cons rfl .nil))
  exact ⟨_, ⟨⟨0⟩, 0, .filled 0⟩, some 3, _, (), rfl, fun _ => rfl, rfl, .sequence hread⟩

theorem Collection.readsCached_growingNotes :
    growingNotes.ReadsCached (.keeping ⟨[], none⟩ .gappedNotes) CacheEntry.gappedBytes :=
  ⟨_, ⟨⟨0⟩, 0, .filled 0⟩, rfl, rfl, rfl⟩

/-- The queued note comes last, whichever way the notes are initialized. -/
theorem Collection.initializations_agree_notes :
    (ElementType.ofScalar .text).StorableCanonical ∧ Scalar.unkeyed.Restores ∧
      Scalar.unkeyed.Plain ∧ growingNotes.stage = .uninitialized ∧
      Aggregate.gappedNotes.KeyedById ∧
      Aggregate.gappedNotes.shape = growingNotes.descriptor.shape ∧
      CacheEntry.ofAggregate .gappedNotes = .ok .gappedNotes ∧
      CacheEntry.gappedNotes.encode = .ok CacheEntry.gappedBytes ∧
      CacheEntry.gappedBytes.length < UInt64.size ∧
      CacheEntry.gappedNotes.toValue.depth ≤ Value.depthLimit ∧
      growingNotes.InitializesWith .gappedNotes
        (Action.ensureInitialized.runOn ⟨growingNotes, .keeping .gappedNotes (.empty none)⟩) ∧
      growingNotes.InitializesWith .gappedNotes
        (Action.ensureInitialized.runOn ⟨growingNotes, .keeping ⟨[], none⟩ .gappedNotes⟩) ∧
      ∃ decoded, CacheEntry.decode CacheEntry.gappedBytes = .ok decoded ∧
        growingNotes.InitializesWith .gappedNotes
          ((Action.assemble decoded).runOn ⟨growingNotes, .keeping ⟨[], none⟩ (.empty none)⟩) ∧
        replay growingNotes.queue .gappedNotes =
          .ok (.sequence [some "a", none, some "b", some "urgent"]) := by
  have hT : (ElementType.ofScalar .text).StorableCanonical :=
    ElementType.storableCanonical_ofScalar Scalar.restoresCanonical_text nofun
  have hplain : Scalar.unkeyed.Plain := nofun
  have hentry : CacheEntry.ofAggregate .gappedNotes = .ok .gappedNotes := rfl
  have hencode : CacheEntry.gappedNotes.encode = .ok CacheEntry.gappedBytes := rfl
  have hsize : CacheEntry.gappedBytes.length < UInt64.size := by decide
  have hdepth : CacheEntry.gappedNotes.toValue.depth ≤ Value.depthLimit := by decide
  obtain ⟨hstreamed, hcached, decoded, hdecode, hassembled⟩ :=
    initializations_agree (σ := Unit) hT Scalar.restores_unkeyed hplain growingNotes rfl
      .gappedNotes trivial rfl .gappedNotes hentry CacheEntry.gappedBytes hencode hsize hdepth
  exact ⟨hT, Scalar.restores_unkeyed, hplain, rfl, trivial, rfl, hentry, hencode, hsize, hdepth,
    hstreamed _ streams_growingNotes, hcached _ readsCached_growingNotes, decoded, hdecode,
    hassembled _, rfl⟩

end LazyCollections
