import LazyCollections.Proofs.Cache.Upkeep

/-!
# Many sessions, one cache

A world starts with a store and an empty cache. Sessions are opened and closed, collections are made
and given up, and each of them is used in any way and order, while the store goes offline and comes
back and the persister refuses changes. At the end of any such history the cache agrees with the
store.
-/

namespace LazyCollections

set_option autoImplicit false

variable {κ : Type}

inductive MemberCall (T : ElementType) (K : Scalar) where
  | ofList (call : ListCall T)
  | ofSet (call : SetCall T)
  | ofMap (call : MapCall T K)
  | ensureInitialized
  | flush
  | assemble (entry : CacheEntry)
  | disassemble
  | bind (session : SessionId) (slot : Nat)
  | unbind
  | setReadOnly (readOnly : Bool)
  | setCachedSize (size : Nat)
  | markOwnerDirty

namespace MemberCall

open LazyCollections.Action

variable {T : ElementType} {K : Scalar}

def run : MemberCall T K → Action T K Database Unit
  | ofList call => do let _ ← call.run
  | ofSet call => do let _ ← call.run
  | ofMap call => do let _ ← call.run
  | ensureInitialized => Action.ensureInitialized
  | flush => do let _ ← Action.flush Database.persister
  | assemble entry => Action.assemble entry
  | disassemble => do let _ ← Action.disassemble
  | bind session slot => Action.bind session slot
  | unbind => Action.unbind
  | setReadOnly readOnly => modifyCollection fun c => c.setReadOnly readOnly
  | setCachedSize size => modifyCollection fun c => c.setCachedSize size
  | markOwnerDirty => do
    if let some a := (← collection).attachment then
      modifyEnvironment fun env => env.markOwnerDirty a

theorem keeps_run (S : CachedRoles κ) (k : κ)
    (call : MemberCall (S.kind k).element (S.kind k).key) :
    Keeps (Setting.CoherentFor S k) call.run := by
  have hignored {α : Type} {action : Action (S.kind k).element (S.kind k).key Database α}
      (h : Keeps (Setting.CoherentFor S k) action) :
      Keeps (Setting.CoherentFor S k) (do let _ ← action) :=
    h.bind fun _ => Keeps.pure ()
  cases call with
  | ofList call => exact hignored ((Setting.CoherentFor.upholdsList S k).run call)
  | ofSet call => exact hignored ((Setting.CoherentFor.upholdsSet S k).run call)
  | ofMap call => exact hignored ((Setting.CoherentFor.upholdsMap S k).run call)
  | ensureInitialized =>
    exact fun s h => h.ensureInitialized_ensures.post fun _ _ hafter => hafter.1
  | flush => exact hignored (Setting.CoherentFor.keeps_flush S k)
  | assemble entry => exact Setting.CoherentFor.keeps_assemble S k entry
  | disassemble => exact hignored (Setting.CoherentFor.keeps_disassemble S k)
  | bind session slot => exact Setting.CoherentFor.keeps_bind S k session slot
  | unbind => exact Setting.CoherentFor.keeps_unbind S k
  | setReadOnly readOnly =>
    intro s h
    rw [run]
    exact Ensures.of_modifyCollection (h.withCollection rfl)
  | setCachedSize size =>
    intro s h
    rw [run]
    refine Ensures.of_modifyCollection (h.withCollection ?_)
    rw [Collection.setCachedSize]
    split <;> rfl
  | markOwnerDirty =>
    intro s h
    apply Ensures.collection_bind
    split
    next a _ =>
      exact Ensures.of_modifyEnvironment (h.records (s.environment.records_markOwnerDirty a))
    next => exact Ensures.pure h

end MemberCall

/-- What may be done in a world. -/
inductive Deed (S : CachedRoles κ) where
  | openSession (config : SessionConfig)
  | closeSession (id : SessionId)
  /-- The session itself is given up. -/
  | endSession (id : SessionId)
  | registerOwner (id : SessionId) (owner : EntityId)
  | clearOwnerDirty (id : SessionId) (slot : Nat)
  | lazyCollection (name : String) (k : κ) (id : SessionId) (slot : Nat) (shape : Shape)
  | wrap (name : String) (k : κ) (id : SessionId) (slot : Nat) (contents : S.Contents k)
  | drop (name : String)
  | act (name : String) (call : (k : κ) → MemberCall (S.kind k).element (S.kind k).key)
  | setOffline (offline : Bool)
  | setProbes (enabled : Bool)
  | registerIdentity (T : ElementType) (role : Role)
  /-- The persister is told to refuse the next change. -/
  | refuseNext

namespace World

variable {S : CachedRoles κ}

/-- No session is open yet, and the cache is empty. -/
def opening (store : Store) (capacity : Option Nat) : World S.kind Database where
  environment := { cache := { region := .empty capacity }, source := { store } }

def onStore (f : Store → Store) (w : World S.kind Database) : World S.kind Database :=
  w.onEnvironment fun env => { env with source := { env.source with store := f env.source.store } }

end World

/-- The world after the deed, whether it succeeded or failed. -/
def Deed.run {S : CachedRoles κ} (deed : Deed S) (w : World S.kind Database) :
    World S.kind Database :=
  match deed with
  | openSession config => w.onEnvironment fun env => (env.openSession config Database.loader true).2
  | closeSession id => w.onEnvironment fun env => env.closeSession id
  | endSession id => w.onEnvironment fun env => env.endSession id
  | registerOwner id owner => w.onEnvironment fun env =>
    ((EnvironmentAction.registerOwner id owner).runOn env).2
  | clearOwnerDirty id slot =>
    w.onEnvironment fun env => env.onSession id fun s => s.clearDirty slot
  | lazyCollection name k id slot shape =>
    (w.create name k (EnvironmentAction.lazyCollection id slot (S.descriptor k) shape)).2
  | wrap name k id slot contents =>
    (w.create name k (EnvironmentAction.wrap id slot (S.descriptor k) contents)).2
  | drop name => (w.drop name).2
  | act name call =>
    match w.act name fun k => (call k).run with
    | some (_, after) => after
    | none => w
  | setOffline offline => w.onStore fun store => { store with offline }
  | setProbes enabled => w.onStore fun store => { store with probesEnabled := enabled }
  | registerIdentity T role => w.onStore fun store => store.registerIdentity T role
  | refuseNext => w.onEnvironment fun env =>
    { env with source := { env.source with refuseNext := true } }

/-- The cache is coherent, and every collection is one of its role. -/
structure World.Coherent {S : CachedRoles κ} (w : World S.kind Database) : Prop where
  environment : w.environment.Coherent S []
  members : ∀ name k c, w.members.get? name = some ⟨k, c⟩ → c.descriptor = S.descriptor k

namespace World.Coherent

variable {S : CachedRoles κ} {w : World S.kind Database}

theorem opening (store : Store) (capacity : Option Nat) :
    (World.opening store capacity : World S.kind Database).Coherent where
  environment :=
    { hosted := nofun
      reachable := ⟨rfl, rfl⟩
      current := by
        intro k owner bytes _ hentry
        have hnone : none = some bytes := hentry
        cases hnone }
  members := by
    intro name k c hmember
    have hnone : none = some (⟨k, c⟩ : Member S.kind) := hmember
    cases hnone

theorem withEnvironment (h : w.Coherent) {env : Environment Database} (henv : env.Coherent S []) :
    World.Coherent (S := S) { w with environment := env } where
  environment := henv
  members := h.members

theorem records (h : w.Coherent) {env : Environment Database}
    (henv : w.environment.Records env) : World.Coherent (S := S) { w with environment := env } :=
  h.withEnvironment (h.environment.records henv)

theorem onStore (h : w.Coherent) {f : Store → Store}
    (hf : ∀ store key, (f store).rows? key = store.rows? key) : (w.onStore f).Coherent :=
  h.withEnvironment
    (h.environment.withSource (List.Subset.refl _) fun key _ => hf w.environment.source.store key)

theorem insert (h : w.Coherent) {env : Environment Database} (henv : env.Coherent S [])
    (name : String) (k : κ) {c : Collection (S.kind k).element (S.kind k).key}
    (hc : c.descriptor = S.descriptor k) :
    World.Coherent (S := S) ⟨env, w.members.insert name ⟨k, c⟩⟩ where
  environment := henv
  members := by
    intro other l d hmember
    rw [SortedMap.get?_insert] at hmember
    split at hmember
    next =>
      cases hmember
      exact hc
    next => exact h.members other l d hmember

theorem release (h : w.Coherent) (m : Member S.kind) : (w.release m).Coherent := by
  rw [World.release]
  split
  next a _ => exact h.records (w.environment.records_release a m.2.role)
  next => exact h

theorem create (h : w.Coherent) (name : String) (k : κ)
    {make : EnvironmentAction Database (Collection (S.kind k).element (S.kind k).key)}
    (hmake : EnvironmentAction.Ensures w.environment make
      (fun c after => w.environment.Records after ∧ c.descriptor = S.descriptor k)
      fun _ => w.environment.Records) :
    (w.create name k make).2.Coherent := by
  rw [EnvironmentAction.Ensures] at hmake
  rw [World.create]
  cases hrun : make.runOn w.environment with
  | mk made env =>
    rw [hrun] at hmake
    cases made with
    | error error => exact h.records hmake
    | ok c =>
      have hnext := h.insert (h.environment.records hmake.1) name k hmake.2
      simp only
      split
      next previous _ => exact hnext.release previous
      next => exact hnext

theorem drop (h : w.Coherent) (name : String) : (w.drop name).2.Coherent := by
  have herased : World.Coherent (S := S) { w with members := w.members.erase name } := by
    refine ⟨h.environment, ?_⟩
    intro other k c hmember
    rw [SortedMap.get?_erase] at hmember
    split at hmember
    next => cases hmember
    next => exact h.members other k c hmember
  rw [World.drop]
  split
  next m _ => exact herased.release m
  next => exact h

/-- What keeps the cache coherent for collections of every role may be done with any of them. -/
theorem act (h : w.Coherent) (name : String) {α : Type}
    {action : (k : κ) → Action (S.kind k).element (S.kind k).key Database α}
    (haction : ∀ k, Action.Keeps (Setting.CoherentFor S k) (action k))
    {result : Except Error α} {after : World S.kind Database}
    (hact : w.act name action = some (result, after)) : after.Coherent := by
  unfold World.act at hact
  split at hact
  next => cases hact
  next k c hmember =>
    have hafter := (haction k).after (s := ⟨c, w.environment⟩)
      ⟨h.members name k c hmember, h.environment⟩
    cases hact
    exact h.insert hafter.coherent name k hafter.descriptor

end World.Coherent

theorem Session.hosted_close (s : Session Database) :
    s.close.loader = s.loader ∧ s.close.cached = s.cached := by
  rw [Session.close]
  split <;> exact ⟨rfl, rfl⟩

theorem Deed.coherent_run {S : CachedRoles κ} {w : World S.kind Database} (h : w.Coherent)
    (deed : Deed S) : (deed.run w).Coherent := by
  cases deed with
  | openSession config => exact h.withEnvironment (h.environment.openSession config)
  | closeSession id => exact h.withEnvironment (h.environment.onSession id Session.hosted_close)
  | endSession id => exact h.withEnvironment (h.environment.onSession id fun s => s.hosted_close)
  | registerOwner id owner =>
    have hrecords := EnvironmentAction.onlyRecords_registerOwner id owner w.environment
    exact h.records hrecords.after
  | clearOwnerDirty id slot =>
    exact h.records (w.environment.records_onSession id fun _ => rfl)
  | lazyCollection name k id slot shape =>
    refine h.create name k ((EnvironmentAction.lazyCollection_ensures id slot _ shape).mono ?_
      fun _ _ hafter => hafter)
    rintro _ after ⟨hafter, a, readOnly, rfl⟩
    exact ⟨hafter, rfl⟩
  | wrap name k id slot contents =>
    refine h.create name k ((EnvironmentAction.wrap_ensures id slot _ contents).mono ?_
      fun _ _ hafter => hafter)
    rintro _ after ⟨hafter, _, a, rfl⟩
    exact ⟨hafter, rfl⟩
  | drop name => exact h.drop name
  | act name call =>
    rw [Deed.run]
    split
    next result after hact => exact h.act name (fun k => (call k).keeps_run S k) hact
    next => exact h
  | setOffline offline =>
    rw [run]
    exact h.onStore fun _ _ => rfl
  | setProbes enabled =>
    rw [run]
    exact h.onStore fun _ _ => rfl
  | registerIdentity T role =>
    rw [run]
    exact h.onStore fun _ _ => rfl
  | refuseNext =>
    exact h.withEnvironment (h.environment.withSource (List.Subset.refl _) fun _ _ => rfl)

def Deed.runAll {S : CachedRoles κ} (deeds : List (Deed S)) (w : World S.kind Database) :
    World S.kind Database :=
  deeds.foldl (fun w deed => deed.run w) w

theorem Deed.coherent_runAll {S : CachedRoles κ} (deeds : List (Deed S))
    {w : World S.kind Database} (h : w.Coherent) : (Deed.runAll deeds w).Coherent := by
  induction deeds generalizing w with
  | nil => exact h
  | cons deed deeds ih => exact ih (deed.coherent_run h)

/-- A collection that is initialized has its queue carried out on what the rows have. -/
def World.InitializesFromStorage {S : CachedRoles κ} (w : World S.kind Database) : Prop :=
  ∀ name k c, w.members.get? name = some ⟨k, c⟩ → c.stage = .uninitialized →
    ∀ after, Action.ensureInitialized.runOn ⟨c, w.environment⟩ = (.ok (), after) →
      ∃ a loaded, c.attachment = some a ∧
        w.environment.source.store.contents (S.key k a.owner) (S.descriptor k).shape = .ok loaded ∧
        c.replayOnto loaded = .ok after.collection

theorem World.Coherent.initializesFromStorage {S : CachedRoles κ} {w : World S.kind Database}
    (h : w.Coherent) (hagrees : w.environment.AgreesWithStorage S) : w.InitializesFromStorage := by
  intro name k c hmember hstage after hrun
  have hs : Setting.CoherentFor S k ⟨c, w.environment⟩ :=
    ⟨h.members name k c hmember, h.environment⟩
  have hinitialized := hs.ensureInitialized_ensures
  rw [Action.Ensures, hrun] at hinitialized
  exact hinitialized.2 hstage hagrees

/-- Whatever was done, every entry of the cache that can be read gives what a load would give, and a
collection that is initialized, from the cache or from the store, has what is stored. -/
theorem cache_agreesWithStorage (S : CachedRoles κ) (hS : S.Storable) (store : Store)
    (capacity : Option Nat) (deeds : List (Deed S)) :
    let w := Deed.runAll deeds (World.opening store capacity)
    w.environment.cache.region.Addressable →
      w.environment.AgreesWithStorage S ∧ w.InitializesFromStorage := by
  intro w hsize
  have hw : w.Coherent := Deed.coherent_runAll deeds (.opening store capacity)
  have hagrees := hw.environment.agreesWithStorage hS hsize
  exact ⟨hagrees, hw.initializesFromStorage hagrees⟩

def CachedRoles.parts : CachedRoles Unit where
  kind _ := ⟨Part.elementType, .unkeyed⟩
  descriptor _ := ⟨⟨"Order.parts"⟩, .set, { cacheable := true }⟩
  cacheable _ := rfl
  distinct _ := rfl

theorem CachedRoles.storable_parts : CachedRoles.parts.Storable where
  element _ := Part.storableCanonical
  key _ := Scalar.restoresCanonical_unkeyed

def Deed.changeBetweenLoads : List (Deed CachedRoles.parts) :=
  [.openSession {}, .registerOwner ⟨0⟩ (.filled 9), .lazyCollection "first" () ⟨0⟩ 0 .set,
    .act "first" fun _ => .ensureInitialized,
    .openSession { cacheMode := .ignore }, .registerOwner ⟨1⟩ (.filled 9),
    .lazyCollection "second" () ⟨1⟩ 0 .set,
    .act "second" fun _ => .ofSet (.insert ⟨.filled 2, "nut", 1⟩),
    .act "second" fun _ => .flush,
    .closeSession ⟨0⟩, .openSession {}, .registerOwner ⟨2⟩ (.filled 9),
    .lazyCollection "third" () ⟨2⟩ 0 .set, .act "third" fun _ => .ensureInitialized]

theorem Region.addressable_of_lengths {region : Region}
    (h : ∀ e ∈ region.entries.entries, e.2.length < UInt64.size) : region.Addressable :=
  fun _ _ hentry => h _ (SortedMap.get?_eq_some_iff.mp hentry)

def World.twoParts : World CachedRoles.parts.kind Database :=
  Deed.runAll Deed.changeBetweenLoads
    (World.opening
      (Store.seed {} ⟨⟨"Order.parts"⟩, .filled 9⟩ (.set [Part.toValue ⟨.filled 1, "bolt", 1⟩]))
      (some 8))

theorem cache_agreesWithStorage_parts :
    World.twoParts.environment.cache.region.contains ⟨⟨"Order.parts"⟩, .filled 9⟩ = true ∧
      World.twoParts.environment.cache.region.Addressable ∧
      World.twoParts.environment.AgreesWithStorage CachedRoles.parts ∧
      World.twoParts.InitializesFromStorage := by
  have hsize : World.twoParts.environment.cache.region.Addressable :=
    Region.addressable_of_lengths (by decide +kernel)
  exact ⟨by decide +kernel, hsize,
    cache_agreesWithStorage CachedRoles.parts CachedRoles.storable_parts _ (some 8)
      Deed.changeBetweenLoads hsize⟩

end LazyCollections
