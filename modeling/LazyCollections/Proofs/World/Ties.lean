import LazyCollections.Proofs.Session.Registry
import LazyCollections.World

/-!
# One collection for an owner and a role

Sessions are opened, closed and ended, owners are registered, and collections are made, used, bound,
unbound and given up, in any order. Every active session then knows exactly the collections that are
tied to it, and no two of them are for one owner in one role. Making or binding a collection where
there already is one fails, and then nothing has changed.
-/

namespace LazyCollections

set_option autoImplicit false

variable {κ : Type} {kinds : κ → Kind} {T : ElementType} {K : Scalar} {σ α : Type}

/-- A collection to be made: of a stored owner, or of given contents. -/
inductive Making (T : ElementType) (K : Scalar) where
  | stored (shape : Shape)
  | ofList (elements : List T.Element)
  | ofSet (elements : List T.Element)
  | ofMap (entries : List (K.Carrier × T.Element))

namespace Making

def shape : Making T K → Shape
  | stored shape => shape
  | ofList _ => .sequence
  | ofSet _ => .set
  | ofMap _ => .keyed

def run (id : SessionId) (slot : Nat) (d : Descriptor) :
    Making T K → EnvironmentAction σ (Collection T K)
  | stored shape => .lazyCollection id slot d shape
  | ofList elements => .wrapList id slot d elements
  | ofSet elements => .wrapSet id slot d elements
  | ofMap entries => .wrapMap id slot d entries

end Making

/-- The collection is tied to an owner in a session that had a vacancy for it. -/
def Environment.Attaches (env : Environment σ) (id : SessionId) (slot : Nat) (role : Role)
    (c : Collection T K) (after : Environment σ) : Prop :=
  ∃ a, a.session = id ∧ a.slot = slot ∧ env.Vacant a role ∧ c.tie = some (a, role) ∧
    (env.hold a role).SameSessions after

namespace EnvironmentAction

variable {env : Environment σ} {Q : α → Environment σ → Prop}

theorem expectShape_bind {d : Descriptor} {expected : Shape} {next : Unit → EnvironmentAction σ α}
    {E : Prop} (h : Ensures env (next ()) Q fun _ after => after = env ∧ E) :
    Ensures env ((liftM (expectShape d expected) : EnvironmentAction σ Unit) >>= next)
      Q fun _ after => after = env ∧ (d.shape = expected → E) := by
  by_cases hshape : d.shape = expected
  · refine Ensures.ofExcept_bind (if_pos hshape) (h.mono (fun _ _ hQ => hQ) ?_)
    exact fun _ _ hE => ⟨hE.1, fun _ => hE.2⟩
  · rw [Ensures, runOn_bind, runOn_ofExcept, expectShape, if_neg hshape]
    exact ⟨rfl, fun heq => absurd heq hshape⟩

theorem wrap_attaches (env : Environment σ) (id : SessionId) (slot : Nat) (d : Descriptor)
    (contents : Aggregate T K) :
    Ensures env (wrap id slot d contents) (env.Attaches id slot d.role) fun _ after =>
      after = env ∧ (d.shape = contents.shape → env.NoVacancy id slot d.role) := by
  apply expectShape_bind
  refine (attach_ensures id slot d.role).bind ?_
  rintro a _ ⟨hsession, hslot, hvacant, rfl⟩
  split
  next =>
    apply Ensures.modify_bind
    exact Ensures.pure ⟨a, hsession, hslot, hvacant, rfl,
      ((env.hold a d.role).notes_markOwnerDirty a).sameSessions⟩
  next => exact Ensures.pure ⟨a, hsession, hslot, hvacant, rfl, .refl _⟩

theorem lazyCollection_attaches (env : Environment σ) (id : SessionId) (slot : Nat)
    (d : Descriptor) (shape : Shape) :
    Ensures env (lazyCollection id slot d shape : EnvironmentAction σ (Collection T K))
      (env.Attaches id slot d.role) fun _ after =>
        after = env ∧ (d.shape = shape → env.NoVacancy id slot d.role) := by
  apply expectShape_bind
  refine (attach_ensures id slot d.role).bind ?_
  rintro a _ ⟨rfl, hslot, hvacant, rfl⟩
  have hheld : ∃ s, (env.hold a d.role).activeSession a.session = .ok s := by
    obtain ⟨s, _, hs, hactive, -⟩ := hvacant
    refine ⟨{ s with attached := (a.slot, d.role) :: s.attached }, ?_⟩
    rw [Environment.activeSession_eq_ok, Environment.hold, Environment.session?_onSession_self, hs]
    exact ⟨rfl, hactive⟩
  obtain ⟨s, hs⟩ := hheld
  apply Ensures.get_bind
  exact Ensures.ofExcept_bind hs (Ensures.pure ⟨a, rfl, hslot, hvacant, rfl, .refl _⟩)

theorem making_attaches (env : Environment σ) (making : Making T K) (id : SessionId) (slot : Nat)
    (d : Descriptor) :
    Ensures env (making.run id slot d) (env.Attaches id slot d.role) fun _ after =>
      after = env ∧ (d.shape = making.shape → env.NoVacancy id slot d.role) := by
  cases making with
  | stored shape => exact lazyCollection_attaches env id slot d shape
  | ofList elements => exact wrap_attaches env id slot d (.sequence (elements.map some))
  | ofSet elements => exact wrap_attaches env id slot d (.setOfFirst elements)
  | ofMap entries => exact wrap_attaches env id slot d (.keyedOfEntries entries)

end EnvironmentAction

namespace World

def ties (w : World kinds σ) : Ties :=
  fun name => (w.members.get? name).bind fun m => m.2.tie

def Registered (w : World kinds σ) : Prop :=
  w.environment.Registry w.ties

variable {w : World kinds σ} {name : String}

theorem ties_eq {m : Member kinds} (h : w.members.get? name = some m) : w.ties name = m.2.tie := by
  rw [ties, h]
  rfl

theorem ties_insert (w : World kinds σ) (env : Environment σ) (name : String) (m : Member kinds) :
    (⟨env, w.members.insert name m⟩ : World kinds σ).ties =
      Function.update w.ties name m.2.tie := by
  funext other
  by_cases hother : other = name
  · rw [hother, Function.update_self]
    exact ties_eq (SortedMap.get?_insert_self _ _ _)
  · rw [Function.update_of_ne hother, ties, SortedMap.get?_insert_of_ne _ _ (Ne.symm hother), ties]

theorem ties_erase (w : World kinds σ) (env : Environment σ) (name : String) :
    (⟨env, w.members.erase name⟩ : World kinds σ).ties = Function.update w.ties name none := by
  funext other
  by_cases hother : other = name
  · rw [hother, Function.update_self, ties, SortedMap.get?_erase_self]
    rfl
  · rw [Function.update_of_ne hother, ties, SortedMap.get?_erase_of_ne _ (Ne.symm hother), ties]

theorem release_eq (m : Member kinds) (w : World kinds σ) :
    w.release m = { w with environment := w.environment.letGo m.2.tie } := by
  rw [release, Collection.tie]
  cases m.2.attachment <;> rfl

theorem members_insert_self {m : Member kinds} (h : w.members.get? name = some m) :
    w.members.insert name m = w.members := by
  apply SortedMap.ext_get?
  intro other
  by_cases hother : name = other
  · rw [← hother, SortedMap.get?_insert_self, h]
  · rw [SortedMap.get?_insert_of_ne _ _ hother]

theorem act_eq {m : Member kinds} (h : w.members.get? name = some m)
    (action : (k : κ) → Action (kinds k).element (kinds k).key σ α) :
    w.act name action = some
      (((action m.1).runOn ⟨m.2, w.environment⟩).1,
        ⟨((action m.1).runOn ⟨m.2, w.environment⟩).2.environment, w.members.insert name
          ⟨m.1, ((action m.1).runOn ⟨m.2, w.environment⟩).2.collection⟩⟩) := by
  rw [act, h]

theorem exists_member {action : (k : κ) → Action (kinds k).element (kinds k).key σ α}
    {acted : Except Error α × World kinds σ} (hact : w.act name action = some acted) :
    ∃ m, w.members.get? name = some m := by
  cases hm : w.members.get? name with
  | none =>
    rw [act, hm] at hact
    cases hact
  | some m => exact ⟨m, rfl⟩

section Create

variable {k : κ} {making : Making (kinds k).element (kinds k).key} {id : SessionId} {slot : Nat}
variable {d : Descriptor}

theorem create_cases (w : World kinds σ) (name : String) (k : κ)
    (making : Making (kinds k).element (kinds k).key) (id : SessionId) (slot : Nat)
    (d : Descriptor) :
    (∃ c after, w.environment.Attaches id slot d.role c after ∧
      w.create name k (making.run id slot d) =
        (.ok (), ⟨after.letGo (w.ties name), w.members.insert name ⟨k, c⟩⟩)) ∨
      ∃ error, w.create name k (making.run id slot d) = (.error error, w) ∧
        (d.shape = making.shape → w.environment.NoVacancy id slot d.role) := by
  have hmade := EnvironmentAction.making_attaches w.environment making id slot d
  rw [EnvironmentAction.Ensures] at hmade
  rw [create]
  cases hrun : (making.run id slot d).runOn w.environment with
  | mk made after =>
    rw [hrun] at hmade
    cases made with
    | error error =>
      obtain ⟨rfl, hoccupied⟩ := hmade
      exact .inr ⟨error, rfl, hoccupied⟩
    | ok c =>
      refine .inl ⟨c, after, hmade, ?_⟩
      cases hprevious : w.members.get? name with
      | none =>
        rw [ties, hprevious]
        rfl
      | some previous =>
        simp only [release_eq, ties_eq hprevious]

theorem Registered.create (h : w.Registered) :
    (w.create name k (making.run id slot d)).2.Registered := by
  rcases w.create_cases name k making id slot d with
    ⟨c, after, hattaches, hcreate⟩ | ⟨_, hcreate, -⟩
  · obtain ⟨a, -, -, hvacant, htie, hsame⟩ := hattaches
    rw [hcreate, Registered, ties_insert, htie]
    exact (Environment.Registry.replace h name hvacant).sameSessions (hsame.letGo _)
  · rw [hcreate]
    exact h

theorem Registered.drop (h : w.Registered) (name : String) : (w.drop name).2.Registered := by
  rw [World.drop]
  cases hname : w.members.get? name with
  | none => exact h
  | some m =>
    simp only
    rw [Registered, release_eq, ties_erase, ← ties_eq hname]
    exact Environment.Registry.letGo h name

end Create

/-- A collection without an active session is bound where there is a vacancy. Otherwise the world
stays as it is. -/
theorem bind_cases {m : Member kinds} (hm : w.members.get? name = some m) (id : SessionId)
    (slot : Nat) :
    (∃ a, a.session = id ∧ a.slot = slot ∧ w.environment.Vacant a m.2.role ∧
      w.act name (fun _ => Action.bind id slot) =
        some (.ok (), ⟨(w.environment.hold a m.2.role).letGo (w.ties name),
          w.members.insert name ⟨m.1, m.2.findSession a⟩⟩)) ∨
      ∃ error, w.act name (fun _ => Action.bind id slot) = some (.error error, w) ∧
        (m.2.isLive w.environment = false → w.environment.NoVacancy id slot m.2.role) := by
  have hbound := Action.bind_effect (s := ⟨m.2, w.environment⟩) id slot
  rw [Action.Ensures] at hbound
  rw [act_eq hm]
  cases hrun : (Action.bind id slot).runOn ⟨m.2, w.environment⟩ with
  | mk result after =>
    rw [hrun] at hbound
    cases result with
    | error error =>
      obtain ⟨rfl, hoccupied⟩ := hbound
      exact .inr ⟨error, by rw [members_insert_self hm], hoccupied⟩
    | ok _ =>
      obtain ⟨-, a, hsession, hslot, hvacant, rfl⟩ := hbound
      exact .inl ⟨a, hsession, hslot, hvacant, by rw [ties_eq hm]⟩

theorem Registered.bind (h : w.Registered) {id : SessionId} {slot : Nat}
    {result : Except Error Unit} {after : World kinds σ}
    (hact : w.act name (fun _ => Action.bind id slot) = some (result, after)) :
    after.Registered := by
  obtain ⟨m, hm⟩ := exists_member hact
  rcases bind_cases hm id slot with ⟨a, -, -, hvacant, hbound⟩ | ⟨_, hfailed, -⟩
  · rw [hbound] at hact
    cases hact
    rw [Registered, ties_insert]
    exact Environment.Registry.replace h name hvacant
  · rw [hfailed] at hact
    cases hact
    exact h

theorem Registered.unbind (h : w.Registered) {result : Except Error Unit} {after : World kinds σ}
    (hact : w.act name (fun _ => Action.unbind) = some (result, after)) : after.Registered := by
  obtain ⟨m, hm⟩ := exists_member hact
  rw [act_eq hm, Action.runOn_unbind] at hact
  cases hact
  rw [Registered, ties_insert, ← ties_eq hm]
  exact Environment.Registry.letGo h name

theorem Registered.act (h : w.Registered)
    {action : (k : κ) → Action (kinds k).element (kinds k).key σ α}
    (haction : ∀ k s₀, Action.Keeps (Setting.Standing s₀) (action k))
    {result : Except Error α} {after : World kinds σ}
    (hact : w.act name action = some (result, after)) : after.Registered := by
  obtain ⟨m, hm⟩ := exists_member hact
  have hstanding := (haction m.1 ⟨m.2, w.environment⟩).after (.refl _)
  have htie : ((action m.1).runOn ⟨m.2, w.environment⟩).2.collection.tie = w.ties name := by
    rw [ties_eq hm, Collection.tie, Collection.tie, Collection.role, Collection.role,
      hstanding.attachment, hstanding.descriptor]
  rw [act_eq hm] at hact
  cases hact
  rw [Registered, ties_insert, htie, Function.update_eq_self]
  exact Environment.Registry.sameSessions h hstanding.sessions

end World

inductive Handling (T : ElementType) (K : Scalar) (σ : Type) where
  | ofList (call : ListCall T)
  | ofSet (call : SetCall T)
  | ofMap (call : MapCall T K)
  | ensureInitialized
  | flush (persister : Persister T K σ)
  | assemble (entry : CacheEntry)
  | disassemble
  | setReadOnly (readOnly : Bool)
  | setCachedSize (size : Nat)
  | markOwnerDirty

namespace Handling

open LazyCollections.Action

def run : Handling T K σ → Action T K σ Unit
  | ofList call => do let _ ← call.run
  | ofSet call => do let _ ← call.run
  | ofMap call => do let _ ← call.run
  | ensureInitialized => Action.ensureInitialized
  | flush persister => do let _ ← Action.flush persister
  | assemble entry => Action.assemble entry
  | disassemble => do let _ ← Action.disassemble
  | setReadOnly readOnly => modifyCollection fun c => c.setReadOnly readOnly
  | setCachedSize size => modifyCollection fun c => c.setCachedSize size
  | markOwnerDirty => do
    if let some a := (← collection).attachment then
      modifyEnvironment fun env => env.markOwnerDirty a

theorem keeps_standing (handling : Handling T K σ) (s₀ : Setting T K σ) :
    Keeps s₀.Standing handling.run := by
  cases handling with
  | ofList call => exact (Setting.Standing.keeps_call s₀ (.ofList call)).map fun _ => ()
  | ofSet call => exact (Setting.Standing.keeps_call s₀ (.ofSet call)).map fun _ => ()
  | ofMap call => exact (Setting.Standing.keeps_call s₀ (.ofMap call)).map fun _ => ()
  | ensureInitialized => exact Setting.Standing.keeps_ensureInitialized s₀
  | flush persister => exact (Setting.Standing.keeps_flush s₀ persister).map fun _ => ()
  | assemble entry => exact Setting.Standing.keeps_assemble s₀ entry
  | disassemble => exact (Setting.Standing.keeps_disassemble s₀).map fun _ => ()
  | setReadOnly readOnly =>
    intro s h
    rw [run]
    exact Ensures.of_modifyCollection (h.onCollection rfl rfl)
  | setCachedSize size =>
    intro s h
    rw [run]
    apply Ensures.of_modifyCollection
    rw [Collection.setCachedSize]
    split <;> exact h.onCollection rfl rfl
  | markOwnerDirty =>
    intro s h
    apply Ensures.collection_bind
    split
    next a _ =>
      exact Ensures.of_modifyEnvironment
        (h.onEnvironment (s.environment.notes_markOwnerDirty a).sameSessions)
    next => exact Ensures.pure h

end Handling

inductive Event {κ : Type} (kinds : κ → Kind) (σ : Type) where
  | openSession (config : SessionConfig) (loader : Loader σ) (cached : Bool)
  | closeSession (id : SessionId)
  | endSession (id : SessionId)
  | registerOwner (id : SessionId) (owner : EntityId)
  | clearOwnerDirty (id : SessionId) (slot : Nat)
  | create (name : String) (k : κ) (making : Making (kinds k).element (kinds k).key)
    (id : SessionId) (slot : Nat) (d : Descriptor)
  | drop (name : String)
  | bind (name : String) (id : SessionId) (slot : Nat)
  | unbind (name : String)
  | handle (name : String) (handling : (k : κ) → Handling (kinds k).element (kinds k).key σ)
  /-- Rows and cache entries come and go. -/
  | surroundings (cache : Cache → Cache) (source : σ → σ)

def World.afterAct (name : String)
    (action : (k : κ) → Action (kinds k).element (kinds k).key σ α) (w : World kinds σ) :
    World kinds σ :=
  match w.act name action with
  | some (_, after) => after
  | none => w

def Event.run (event : Event kinds σ) (w : World kinds σ) : World kinds σ :=
  match event with
  | openSession config loader cached =>
    w.onEnvironment fun env => (env.openSession config loader cached).2
  | closeSession id => w.onEnvironment fun env => env.closeSession id
  | endSession id => w.onEnvironment fun env => env.endSession id
  | registerOwner id owner => w.onEnvironment fun env =>
    ((EnvironmentAction.registerOwner id owner).runOn env).2
  | clearOwnerDirty id slot =>
    w.onEnvironment fun env => env.onSession id fun s => s.clearDirty slot
  | create name k making id slot d => (w.create name k (making.run id slot d)).2
  | drop name => (w.drop name).2
  | bind name id slot => w.afterAct name fun _ => Action.bind id slot
  | unbind name => w.afterAct name fun _ => Action.unbind
  | handle name handling => w.afterAct name fun k => (handling k).run
  | surroundings cache source =>
    w.onEnvironment fun env => { env with cache := cache env.cache, source := source env.source }

def Event.runAll (events : List (Event kinds σ)) (w : World kinds σ) : World kinds σ :=
  events.foldl (fun w event => event.run w) w

namespace World

def beginning (cache : Cache) (source : σ) : World kinds σ where
  environment := { cache, source }

namespace Registered

variable {w : World kinds σ} {name : String}

theorem beginning (cache : Cache) (source : σ) :
    (World.beginning cache source : World kinds σ).Registered where
  registers := nofun
  hasOwner := nofun

theorem withEnvironment {env : Environment σ} (henv : env.Registry w.ties) :
    Registered { w with environment := env } :=
  henv

theorem afterAct (h : w.Registered)
    {action : (k : κ) → Action (kinds k).element (kinds k).key σ α}
    (haction : ∀ {result after}, w.act name action = some (result, after) → after.Registered) :
    (w.afterAct name action).Registered := by
  rw [World.afterAct]
  split
  next hact => exact haction hact
  next => exact h

end Registered

end World

theorem Event.registered_run {w : World kinds σ} (h : w.Registered) (event : Event kinds σ) :
    (event.run w).Registered := by
  cases event with
  | openSession config loader cached =>
    exact .withEnvironment (Environment.Registry.openSession h config loader cached)
  | closeSession id =>
    exact .withEnvironment (Environment.Registry.closeSession h id)
  | endSession id =>
    exact .withEnvironment (Environment.Registry.endSession h id)
  | registerOwner id owner =>
    exact .withEnvironment (Environment.Registry.registerOwner h id owner)
  | clearOwnerDirty id slot =>
    exact .withEnvironment (Environment.Registry.sameSessions h
      (w.environment.map_onSession id fun s => s.bare_noteOwner slot false))
  | create name k making id slot d => exact h.create
  | drop name => exact h.drop name
  | bind name id slot => exact h.afterAct h.bind
  | unbind name => exact h.afterAct h.unbind
  | handle name handling =>
    exact h.afterAct (h.act fun k s₀ => (handling k).keeps_standing s₀)
  | surroundings cache source =>
    exact .withEnvironment (Environment.Registry.sameSessions h rfl)

theorem Event.registered_runAll {w : World kinds σ} (h : w.Registered)
    (events : List (Event kinds σ)) : (Event.runAll events w).Registered := by
  induction events generalizing w with
  | nil => exact h
  | cons event events ih => exact ih (event.registered_run h)

/-- What would take the place of the role for the owner fails without a change or succeeds, and
where nothing else stands in its way it fails exactly if the place is taken. -/
structure World.TakesPlace (w : World kinds σ) (id : SessionId) (slot : Nat) (role : Role)
    (free : Prop) (result : Except Error Unit) (after : World kinds σ) : Prop where
  unchanged : ∀ error, result = .error error → after = w
  fails_iff : w.environment.Serves id slot → free →
    ((∃ error, result = .error error) ↔ ∃ name, w.ties.Holds id slot role name)

namespace World.Registered

variable {w : World kinds σ} {name : String} {id : SessionId} {slot : Nat} {role : Role}
variable {free : Prop} {after : World kinds σ}

theorem takesPlace_ok (h : w.Registered) {a : Attachment} (hsession : a.session = id)
    (hslot : a.slot = slot) (hvacant : w.environment.Vacant a role) :
    w.TakesPlace id slot role free (.ok ()) after where
  unchanged := nofun
  fails_iff hserves _ :=
    ⟨nofun, fun hheld => absurd hvacant ((h.noVacancy_iff hserves).mpr hheld a hsession hslot)⟩

theorem takesPlace_error (h : w.Registered) (error : Error)
    (hoccupied : free → w.environment.NoVacancy id slot role) :
    w.TakesPlace id slot role free (.error error) w where
  unchanged _ _ := rfl
  fails_iff hserves hfree :=
    ⟨fun _ => (h.noVacancy_iff hserves).mp (hoccupied hfree), fun _ => ⟨error, rfl⟩⟩

theorem takesPlace_create (h : w.Registered) (name : String) (k : κ)
    (making : Making (kinds k).element (kinds k).key) (id : SessionId) (slot : Nat)
    (d : Descriptor) :
    w.TakesPlace id slot d.role (d.shape = making.shape)
      (w.create name k (making.run id slot d)).1 (w.create name k (making.run id slot d)).2 := by
  rcases w.create_cases name k making id slot d with
    ⟨_, _, hattaches, hmade⟩ | ⟨error, hfailed, hoccupied⟩
  · obtain ⟨a, hsession, hslot, hvacant, -⟩ := hattaches
    rw [hmade]
    exact h.takesPlace_ok hsession hslot hvacant
  · rw [hfailed]
    exact h.takesPlace_error error hoccupied

theorem takesPlace_bind (h : w.Registered) {m : Member kinds}
    (hm : w.members.get? name = some m) (id : SessionId) (slot : Nat) :
    ∃ result after, w.act name (fun _ => Action.bind id slot) = some (result, after) ∧
      w.TakesPlace id slot m.2.role (m.2.isLive w.environment = false) result after := by
  rcases bind_cases hm id slot with
    ⟨a, hsession, hslot, hvacant, hbound⟩ | ⟨error, hfailed, hoccupied⟩
  · exact ⟨_, _, hbound, h.takesPlace_ok hsession hslot hvacant⟩
  · exact ⟨_, _, hfailed, h.takesPlace_error error hoccupied⟩

end World.Registered

/-- In every world that is reached, each active session knows exactly the collections that are tied
to it, one for an owner and a role, and every session has each of its owners once. Making or binding
a collection fails without a change, or takes a place that no other collection has. -/
theorem World.one_collection_per_role (cache : Cache) (source : σ)
    (events : List (Event kinds σ)) :
    let w := Event.runAll events (World.beginning cache source)
    w.Registered ∧
      (∀ name k (making : Making (kinds k).element (kinds k).key) id slot d,
        w.TakesPlace id slot d.role (d.shape = making.shape)
          (w.create name k (making.run id slot d)).1 (w.create name k (making.run id slot d)).2) ∧
      ∀ name m id slot, w.members.get? name = some m →
        ∃ result after, w.act name (fun _ => Action.bind id slot) = some (result, after) ∧
          w.TakesPlace id slot m.2.role (m.2.isLive w.environment = false) result after := by
  intro w
  have h : w.Registered := Event.registered_runAll (.beginning cache source) events
  exact ⟨h, h.takesPlace_create, fun _ _ id slot hm => h.takesPlace_bind hm id slot⟩

def Descriptor.orderNotes : Descriptor :=
  ⟨⟨"Order.notes"⟩, .sequence, {}⟩

/-- The session of a first list is closed, and then a second list is made in another session. -/
def Event.twoLists : List (Event (fun _ : Unit => ⟨.ofScalar .text, .unkeyed⟩) Unit) :=
  [.openSession {} (.ofFeed ⟨[], none⟩) false, .registerOwner ⟨0⟩ (.filled 9),
    .create "first" () (.stored .sequence) ⟨0⟩ 0 .orderNotes, .closeSession ⟨0⟩,
    .openSession {} (.ofFeed ⟨[], none⟩) false, .registerOwner ⟨1⟩ (.filled 9),
    .create "second" () (.ofList ["urgent"]) ⟨1⟩ 0 .orderNotes]

/-- The first list cannot take the place of the second one. -/
theorem World.one_collection_per_role_notes :
    let w := Event.runAll Event.twoLists (World.beginning { region := .empty none } ())
    ∃ first, w.members.get? "first" = some first ∧ first.2.isLive w.environment = false ∧
      w.environment.Serves ⟨1⟩ 0 ∧ w.ties.Holds ⟨1⟩ 0 ⟨"Order.notes"⟩ "second" ∧
      ∃ error, w.act "first" (fun _ => Action.bind ⟨1⟩ 0) = some (.error error, w) := by
  intro w
  obtain ⟨-, -, hbind⟩ := World.one_collection_per_role { region := .empty none } ()
    Event.twoLists
  have hfirst : w.members.get? "first" =
      some ⟨(), .unloaded .orderNotes ⟨⟨0⟩, 0, .filled 9⟩ false⟩ := rfl
  have hserves : w.environment.Serves ⟨1⟩ 0 := ⟨_, _, rfl, rfl, rfl⟩
  have hheld : w.ties.Holds ⟨1⟩ 0 ⟨"Order.notes"⟩ "second" :=
    ⟨⟨⟨1⟩, 0, .filled 9⟩, rfl, rfl, rfl⟩
  obtain ⟨result, after, hact, htakes⟩ := hbind "first" _ ⟨1⟩ 0 hfirst
  obtain ⟨error, rfl⟩ := (htakes.fails_iff hserves rfl).mpr ⟨"second", hheld⟩
  obtain rfl := htakes.unchanged error rfl
  exact ⟨_, hfirst, rfl, hserves, hheld, error, hact⟩

end LazyCollections
