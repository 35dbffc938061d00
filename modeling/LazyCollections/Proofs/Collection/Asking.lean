import LazyCollections.Proofs.Aggregate.Identities
import LazyCollections.Proofs.Aggregate.Contents
import LazyCollections.Proofs.Collection.Steps
import LazyCollections.Proofs.Queue.Exact
import LazyCollections.Proofs.Storage.Keeping

/-!
# Unloaded collections that ask the database

An unloaded collection in a session on the database answers from its queue, and where the queue says
nothing from the rows that are stored. Asking leaves the collection as it is, but for a size that it
notes, and of the database what counts. It fails if the store is offline, or if the element cannot
be converted. What is answered is so in the contents that the queue leads to.
-/

namespace LazyCollections

set_option autoImplicit false

variable {T : ElementType} {K : Scalar} {α : Type}

namespace Environment

/-- The session of an attachment is active, loads from the database and uses no cache. -/
def Hosts (env : Environment Database) (a : Attachment) : Prop :=
  ∃ s, env.session? a.session = some s ∧ s.status = .active ∧ s.loader = Database.loader ∧
    s.cached = false

/-- What actions that write nothing leave alone. -/
structure Agrees (env later : Environment Database) : Prop where
  hosts : ∀ a, env.Hosts a → later.Hosts a
  store : env.source.store.Agrees later.source.store
  refuseNext : later.source.refuseNext = env.source.refuseNext

variable {env later last : Environment Database}

theorem Agrees.refl (env : Environment Database) : env.Agrees env :=
  ⟨fun _ h => h, .refl _, rfl⟩

theorem Agrees.trans (h : env.Agrees later) (hlast : later.Agrees last) : env.Agrees last where
  hosts a ha := hlast.hosts a (h.hosts a ha)
  store :=
    ⟨hlast.store.collections.trans h.store.collections,
      hlast.store.identities.trans h.store.identities, hlast.store.offline.trans h.store.offline⟩
  refuseNext := hlast.refuseNext.trans h.refuseNext

theorem Records.agrees (h : env.Records later) : env.Agrees later where
  hosts a := by
    rintro ⟨s, hfound, hactive, hloader, hcached⟩
    have hterms := congrArg (·[a.session.index]?) h.sessions
    simp only [List.getElem?_map] at hterms
    rw [session?] at hfound
    rw [hfound, Option.map_some, Option.map_eq_some_iff] at hterms
    obtain ⟨s', hfound', hterms⟩ := hterms
    simp only [Session.terms, Prod.mk.injEq] at hterms
    exact ⟨s', hfound', hterms.2.2.2.trans hactive, hterms.2.1.trans hloader,
      hterms.2.2.1.trans hcached⟩
  store := by
    rw [h.source]
    exact .refl _
  refuseNext := by rw [h.source]

theorem agrees_tally (env : Environment Database) (id : SessionId)
    (count : SessionStats → SessionStats) :
    env.Agrees (env.onSession id fun s => { s with stats := count s.stats }) :=
  (env.records_tally id count).agrees

theorem agrees_source (env : Environment Database) {store : Store}
    (h : env.source.store.Agrees store) :
    env.Agrees { env with source := { env.source with store } } where
  hosts _ hosts := hosts
  store := h
  refuseNext := rfl

end Environment

/-- The collection of an owner, held in a session that loads from the database without a cache. -/
structure Setting.HeldBy (d : Descriptor) (a : Attachment) (s : Setting T K Database) : Prop where
  hosted : s.environment.Hosts a
  descriptor : s.collection.descriptor = d
  attachment : s.collection.attachment = some a

structure Setting.OnlyAsked (s later : Setting T K Database) : Prop where
  collection : later.collection = s.collection
  environment : s.environment.Agrees later.environment

theorem Setting.OnlyAsked.refl (s : Setting T K Database) : s.OnlyAsked s :=
  ⟨rfl, .refl _⟩

namespace Store

def OutOfReach (store : Store) (error : Error) : Prop :=
  error = offlineError ∧ store.offline = true

variable {store : Store} {d : Descriptor} {owner : EntityId}
variable {queue : List (QueuedOp T.Element K.Carrier)}

/-- Whether an element of the identity is there is told by the queue, or by the rows if the queue
does not concern it. -/
inductive TellsElement (store : Store) (d : Descriptor) (owner : EntityId)
    (queue : List (QueuedOp T.Element K.Carrier)) (e : T.Element) (x : Bool) : Prop
  | queued (h : queuedMembership d.shape queue e = some (if x = true then .present else .absent))
  | stored (id : Value) (hqueue : queuedMembership d.shape queue e = none)
    (hid : T.externalizeId e = .ok id)
    (hrows : x = holdsIdentity (store.identify d.role) id (store.rows? ⟨d.role, owner⟩))

def entryAt (store : Store) (T : ElementType) (d : Descriptor) (owner : EntityId)
    (k : K.Carrier) : Except Error (Option T.Element) :=
  T.readProbe (rowAt (.key (K.toValue k)) (store.rows? ⟨d.role, owner⟩))

/-- What stands under a key is told by the queue, or by the rows if the queue does not concern
it. -/
inductive TellsEntry (store : Store) (d : Descriptor) (owner : EntityId)
    (queue : List (QueuedOp T.Element K.Carrier)) (k : K.Carrier) (entry : Option T.Element) : Prop
  | queued (h : queuedEntry queue k = some entry)
  | stored (hqueue : queuedEntry queue k = none) (hrow : store.entryAt T d owner k = .ok entry)

/-- What is told of an element is so in the contents that the queue leads to. In a sequence an
element is only called present if the queue does not concern it and it is among the stored ones. -/
theorem TellsElement.eq_has {stored now : Aggregate T K} {e : T.Element} {x : Bool}
    (h : store.TellsElement d owner queue e x) (hT : T.Storable) (hid : T.StorableId)
    (hstored : store.Provides d owner stored) (hshape : d.shape ≠ .keyed)
    (run : QueueRun stored queue now) :
    x = now.has e ∧ (x = true → d.shape = .sequence →
      queuedMembership .sequence queue e = none ∧ T.idOf e ∈ stored.ids) := by
  have hunkeyed : stored.shape ≠ .keyed := by rwa [hstored.shape_eq]
  have hdescribes := run.describes hunkeyed hstored.keyedById e
  rw [hstored.shape_eq] at hdescribes
  cases h with
  | queued hqueue =>
    rw [hqueue] at hdescribes
    cases x with
    | true =>
      refine ⟨hdescribes.symm, fun _ hsequence => ?_⟩
      rw [hsequence] at hqueue
      exact absurd hqueue (queuedMembership_sequence_ne_present _ _)
    | false => exact ⟨hdescribes.symm, nofun⟩
  | stored id hqueue hidentity hrows =>
    rw [hid.externalizeId_eq e] at hidentity
    cases hidentity
    rw [hstored.keeps.holdsIdentity_eq hT hid (hstored.identifies hshape) hunkeyed] at hrows
    rw [hqueue] at hdescribes
    refine ⟨hrows.trans hdescribes.symm, fun hpresent hsequence => ⟨?_, ?_⟩⟩
    · rwa [hsequence] at hqueue
    · rw [← Aggregate.has_iff, ← hrows, hpresent]

theorem Provides.entryAt_eq {base : SortedMap K.Carrier T.Element} (hT : T.Storable)
    (hK : K.Restores) (h : store.Provides d owner (.keyed base : Aggregate T K)) (k : K.Carrier) :
    store.entryAt T d owner k = .ok (base.get? k) := by
  rw [entryAt, h.keeps.rowAt_eq hK k]
  cases base.get? k with
  | none => rfl
  | some e => exact hT.internalizeSlot_slotForm (some e)

theorem TellsEntry.get?_eq {base items : SortedMap K.Carrier T.Element} {k : K.Carrier}
    {entry : Option T.Element} (h : store.TellsEntry d owner queue k entry) (hT : T.Storable)
    (hK : K.Restores) (hstored : store.Provides d owner (.keyed base : Aggregate T K))
    (run : QueueRun (.keyed base) queue (.keyed items : Aggregate T K)) : items.get? k = entry := by
  obtain ⟨current, hcurrent, hget⟩ := run.queuedEntry_spec rfl k
  obtain rfl := Aggregate.keyed.inj hcurrent
  cases h with
  | queued hqueue =>
    rw [hget, hqueue]
    rfl
  | stored hqueue hrow =>
    rw [hstored.entryAt_eq hT hK k] at hrow
    cases hrow
    rw [hget, hqueue]
    rfl

open EnvironmentAction in
theorem Provides.loadContents_ensures {env : Environment Database} {a : Attachment}
    {stored : Aggregate T K} (hstored : env.source.store.Provides d a.owner stored)
    (hT : T.Storable) (hK : K.Restores) {session : Session Database}
    (hloader : session.loader = Database.loader) (hcached : session.cached = false) :
    Ensures env (loadContents session d a)
      (fun loaded after => loaded = stored ∧ env.Agrees after)
      (fun error after => env.Agrees after ∧ env.source.store.OutOfReach error) := by
  have huses : usesCache session d = false := by
    rw [usesCache, hcached]
    rfl
  have hagrees := env.agrees_source (env.source.store.agrees_load ⟨d.role, a.owner⟩)
  refine Ensures.bind (Q := fun found after => found = none ∧ env = after) ?_ ?_
  · rw [readCache, huses]
    exact Ensures.pure ⟨rfl, rfl⟩
  · rintro _ _ ⟨rfl, rfl⟩
    refine Ensures.bind (Q := fun loaded after => loaded = stored ∧ env.Agrees after) ?_ ?_
    · apply Ensures.ask
      simp only [hloader, Database.loader, Database.onStore, keyOf]
      cases hoff : env.source.store.offline with
      | true =>
        rw [Store.contents_load_offline hoff]
        exact ⟨hagrees, rfl, hoff⟩
      | false =>
        rw [hstored.keeps.contents_load hT hK hoff hstored.keyedById hstored.shape_eq]
        exact ⟨rfl, hagrees⟩
    · rintro _ after ⟨rfl, hafter⟩
      apply Ensures.tally_bind
      rw [writeCache, huses]
      exact Ensures.pure ⟨rfl, hafter.trans (after.agrees_tally a.session
        fun n => { n with collectionsLoaded := n.collectionsLoaded + 1 })⟩

end Store

/-- What looking a size up leaves. It is looked up only while nothing is queued: then it is one that
was noted before, or that of the rows, which is noted now. -/
inductive Setting.SizeLookedUp (s : Setting T K Database) (d : Descriptor) (owner : EntityId) :
    Option Nat → Setting T K Database → Prop
  | unasked : SizeLookedUp s d owner none s
  | asked (found : Option Nat) (later : Environment Database)
    (hstage : s.collection.stage = .uninitialized) (hempty : s.collection.queue.isEmpty = true)
    (hagrees : s.environment.Agrees later)
    (hfound : ∀ n, found = some n → s.collection.cachedSize = some n ∨
      n = s.environment.source.store.rowCount d owner) :
    SizeLookedUp s d owner found ⟨{ s.collection with cachedSize := found }, later⟩

namespace Setting.HeldBy

open LazyCollections.Action

variable {d : Descriptor} {a : Attachment} {s : Setting T K Database}

theorem ask_ensures {env : Environment Database} (henv : s.environment.Agrees env)
    (hsource : env.source = s.environment.source) (key : CollectionKey)
    (answer : Store → Option StoredRows → α) :
    EnvironmentAction.Ensures env
      (.ask fun db => Database.onStore (fun store => Store.probe key (answer store) store) db)
      (fun found later => s.OnlyAsked ⟨s.collection, later⟩ ∧ ∀ x, found = some x →
        x = answer s.environment.source.store (s.environment.source.store.rows? key))
      (fun error later => s.OnlyAsked ⟨s.collection, later⟩ ∧
        s.environment.source.store.OutOfReach error) := by
  have hasked {later : Store} (hlater : env.source.store.Agrees later) :
      s.OnlyAsked ⟨s.collection, { env with source := { env.source with store := later } }⟩ :=
    ⟨rfl, henv.trans (env.agrees_source hlater)⟩
  rw [← hsource]
  apply EnvironmentAction.Ensures.ask
  rcases Store.probe_cases env.source.store key (answer env.source.store)
    with ⟨hoff, h⟩ | ⟨later, hlater, h⟩ | ⟨later, hlater, h⟩
  · simp only [Database.onStore, h]
    exact ⟨hasked (.refl _), rfl, hoff⟩
  · simp only [Database.onStore, h]
    exact ⟨hasked hlater, fun x hx => absurd hx.symm (Option.some_ne_none x)⟩
  · simp only [Database.onStore, h]
    refine ⟨hasked hlater, ?_⟩
    rintro x ⟨⟩
    rfl

variable (h : s.HeldBy d a)
include h

theorem session_eq :
    ∃ session, s.collection.session s.environment = .ok (session, a) ∧
      session.loader = Database.loader ∧ session.cached = false := by
  obtain ⟨session, hfound, hactive, hloader, hcached⟩ := h.hosted
  exact ⟨session, Collection.session_eq h.attachment hfound hactive, hloader, hcached⟩

theorem of_session {session : Session Database} {b : Attachment}
    (hsession : s.collection.session s.environment = .ok (session, b)) :
    session.loader = Database.loader ∧ b = a := by
  obtain ⟨found, hfound, hloader, _⟩ := h.session_eq
  rw [hfound] at hsession
  cases hsession
  exact ⟨hloader, rfl⟩

theorem session_ne_error (error : Error) :
    s.collection.session s.environment ≠ .error error := by
  obtain ⟨found, hfound, _⟩ := h.session_eq
  rw [hfound]
  nofun

theorem role_eq : s.collection.role = d.role := by
  rw [Collection.role, h.descriptor]

theorem probeMembership_ensures (e : T.Element) :
    Ensures s (probeMembership e)
      (fun found s' => s.OnlyAsked s' ∧ ∀ x, found = some x →
        s.environment.source.store.TellsElement d a.owner s.collection.queue e x)
      (fun error s' => s.OnlyAsked s' ∧
        (s.environment.source.store.OutOfReach error ∨ T.externalizeId e = .error error)) := by
  apply Ensures.probeMembership
  · intro x hqueued
    rw [h.descriptor] at hqueued
    refine ⟨.refl s, ?_⟩
    rintro _ ⟨⟩
    exact .queued hqueued
  · exact ⟨.refl s, nofun⟩
  · exact fun error hlost => absurd hlost (h.session_ne_error error)
  · exact fun error hunable => ⟨.refl s, .inr hunable⟩
  · intro session b id hqueue hsession hid env henv
    obtain ⟨hloader, rfl⟩ := h.of_session hsession
    rw [h.descriptor] at hqueue
    rw [hloader, h.role_eq]
    refine (ask_ensures henv.records.agrees henv.source ⟨d.role, b.owner⟩
      fun store => Store.holdsIdentity (store.identify d.role) id).mono ?_ ?_
    · rintro found after ⟨hasked, hfound⟩
      exact ⟨hasked, fun x hx => .stored id hqueue hid (hfound x hx)⟩
    · rintro error after ⟨hasked, hout⟩
      exact ⟨hasked, .inl hout⟩

theorem probeKey_ensures (k : K.Carrier) :
    Ensures s (probeKey k)
      (fun found s' => s.OnlyAsked s' ∧ ∀ entry, found = some entry →
        s.environment.source.store.TellsEntry d a.owner s.collection.queue k entry)
      (fun error s' => s.OnlyAsked s' ∧
        (s.environment.source.store.OutOfReach error ∨
          s.environment.source.store.entryAt T d a.owner k = .error error)) := by
  apply Ensures.probeKey
  · intro entry hqueued
    refine ⟨.refl s, ?_⟩
    rintro _ ⟨⟩
    exact .queued hqueued
  · exact ⟨.refl s, nofun⟩
  · exact fun error hlost => absurd hlost (h.session_ne_error error)
  · intro session b hqueue hsession env henv
    obtain ⟨hloader, rfl⟩ := h.of_session hsession
    rw [hloader, h.role_eq]
    refine (ask_ensures henv.records.agrees henv.source ⟨d.role, b.owner⟩
      fun _ => Store.rowAt (.key (K.toValue k))).mono ?_ ?_
    · rintro found after ⟨hasked, hfound⟩
      refine ⟨fun _ => ⟨hasked, nofun⟩, fun probe hprobe => ?_⟩
      rw [hfound probe hprobe]
      refine ⟨fun entry hentry => ⟨hasked, ?_⟩, fun error herror => ⟨hasked, .inr herror⟩⟩
      rintro _ ⟨⟩
      exact .stored hqueue hentry
    · rintro error after ⟨hasked, hout⟩
      exact ⟨hasked, .inl hout⟩

theorem fastSize_ensures :
    Ensures s fastSize (s.SizeLookedUp d a.owner)
      (fun error s' => s.OnlyAsked s' ∧ s.environment.source.store.OutOfReach error) := by
  apply Ensures.fastSize
  · exact .unasked
  · exact fun hstage hempty => .asked _ _ hstage hempty (.refl _) fun _ hn => .inl hn
  · exact fun error hlost => absurd hlost (h.session_ne_error error)
  · intro session b hstage hempty _ hsession env henv
    obtain ⟨hloader, rfl⟩ := h.of_session hsession
    rw [hloader, h.role_eq]
    refine (ask_ensures henv.records.agrees henv.source ⟨d.role, b.owner⟩
      fun _ rows => (rows.map StoredRows.size).getD 0).mono ?_ fun _ _ hfailed => hfailed
    rintro size after ⟨hasked, hsize⟩
    refine .asked size after hstage hempty hasked.environment fun n hn => .inr ?_
    rw [hsize n hn, Store.getD_size_rows?]

end Setting.HeldBy

end LazyCollections
