import LazyCollections.Proofs.Refinement.Run
import LazyCollections.Proofs.Storage.Seeding

/-!
# Collections as they are opened

A session that is open on a database and uses no cache offers a collection of an owner if it has
the owner and the collection is not attached yet. The collection then stands for what is stored, and
from there it follows its model.
-/

namespace LazyCollections

set_option autoImplicit false

variable {T : ElementType} {K : Scalar}

/-- An open session on the database has the owner in a slot, and the collection of the owner can be
attached and written to. -/
def Environment.Offers (env : Environment Database) (session : SessionId) (slot : Nat)
    (d : Descriptor) (owner : EntityId) : Prop :=
  ∃ s, env.session? session = some s ∧ s.status = .active ∧ s.loader = Database.loader ∧
    s.cached = false ∧ s.config.defaultReadOnly = false ∧
    (∃ dirty, s.owners[slot]? = some ⟨owner, dirty⟩) ∧ (slot, d.role) ∉ s.attached

namespace Environment

variable {env : Environment Database} {session : SessionId} {slot : Nat} {d : Descriptor}
variable {owner : EntityId}

theorem session?_onSession (id : SessionId) (f : Session Database → Session Database)
    {s : Session Database} (h : env.session? id = some s) :
    (env.onSession id f).session? id = some (f s) := by
  rw [session?, onSession, List.getElem?_modify_eq]
  exact congrArg (Option.map f) h

theorem offers_openSession (env : Environment Database) {config : SessionConfig}
    (hconfig : config.defaultReadOnly = false) (d : Descriptor) (owner : EntityId) :
    ∃ after,
      (EnvironmentAction.registerOwner (env.openSession config Database.loader false).1
          owner).runOn (env.openSession config Database.loader false).2 = (.ok 0, after) ∧
        after.Offers (env.openSession config Database.loader false).1 0 d owner ∧
        after.source = env.source := by
  have hfound : (env.openSession config Database.loader false).2.session?
      (env.openSession config Database.loader false).1 =
        some { config, loader := Database.loader, cached := false } := by
    simp [session?, openSession]
  have hregistered := session?_onSession _
    (fun s => { s with owners := s.owners ++ [⟨owner, false⟩] }) hfound
  refine ⟨_, ?_, ⟨_, hregistered, rfl, rfl, rfl, hconfig, ?_, ?_⟩, rfl⟩
  · simp [EnvironmentAction.registerOwner, EnvironmentAction.runOn_bind, activeSession, hfound,
      Session.checkActive]
    rfl
  · exact ⟨false, rfl⟩
  · exact List.not_mem_nil

def serving (store : Store) (owner : EntityId) : Environment Database :=
  let opened := (⟨[], { region := .empty none }, { store }⟩ : Environment Database).openSession {}
    Database.loader false
  ((EnvironmentAction.registerOwner opened.1 owner).runOn opened.2).2

theorem offers_serving (store : Store) (d : Descriptor) (owner : EntityId) :
    (serving store owner).Offers ⟨0⟩ 0 d owner ∧ (serving store owner).source.store = store := by
  have hwritable : ({} : SessionConfig).defaultReadOnly = false := rfl
  obtain ⟨after, hregistered, hoffers, hsource⟩ :=
    offers_openSession ⟨[], { region := .empty none }, { store }⟩ hwritable d owner
  have hserving : serving store owner = after := congrArg Prod.snd hregistered
  rw [hserving, hsource]
  exact ⟨hoffers, rfl⟩

end Environment

section Opening

variable {env : Environment Database} {session : SessionId} {slot : Nat} {d : Descriptor}
variable {owner : EntityId} {shape : Shape}

theorem lazyCollection_tracks (hoffers : env.Offers session slot d owner)
    (hd : d.shape = shape) {stored : Aggregate T K} (hstored : stored.InOrder d.shape)
    (hholds : env.source.store.HoldsAt ⟨d.role, owner⟩ stored)
    (hidentifies : d.shape ≠ .keyed → env.source.store.Identifies T d.role) :
    ∃ c after,
      (EnvironmentAction.lazyCollection session slot d shape :
          EnvironmentAction Database (Collection T K)).runOn env = (.ok c, after) ∧
        Tracks d ⟨session, slot, owner⟩ env.source.trouble stored stored ⟨c, after⟩ := by
  obtain ⟨s, hfound, hactive, hloader, hcached, hwritable, ⟨dirty, howner⟩, hfree⟩ := hoffers
  have hattached := Environment.session?_onSession session
    (fun s => { s with attached := (slot, d.role) :: s.attached }) hfound
  refine ⟨.unloaded d ⟨session, slot, owner⟩ s.config.defaultReadOnly, env.onSession session
    fun s => { s with attached := (slot, d.role) :: s.attached }, ?_, ?_⟩
  · simp [EnvironmentAction.lazyCollection, EnvironmentAction.expectShape, hd,
      EnvironmentAction.attach, EnvironmentAction.runOn_bind, Environment.activeSession, hfound,
      Session.checkActive, hactive, howner, hfree, hattached]
    rfl
  · have hsize : ∀ n, none = some n → n = stored.size := by
      intro n hn
      cases hn
    exact
      { hosted := ⟨_, hattached, hactive, hloader, hcached⟩
        holds := hholds
        identifies := hidentifies
        trouble := rfl
        stored_inOrder := hstored
        descriptor := rfl
        attachment := rfl
        writable := hwritable
        standsFor := .unloaded rfl .nil hsize
        now_inOrder := hstored }

/-- A collection that is opened stands for the contents of its model and follows it. -/
theorem lazyCollection_follows {Call M : Type} {run : Call → Action T K Database (Answer T K)}
    {model : PlainModel T K Call M} {m : M} (hT : T.Lawful d.shape) (hK : K.Restores)
    (hoffers : env.Offers session slot d owner) (hd : d.shape = shape)
    (hm : (model.contents m).InOrder d.shape)
    (hholds : env.source.store.HoldsAt ⟨d.role, owner⟩ (model.contents m))
    (hidentifies : d.shape ≠ .keyed → env.source.store.Identifies T d.role)
    (hcalls : ∀ c, Performs d ⟨session, slot, owner⟩ run model c) (steps : List (Step Call)) :
    ∃ c after,
      (EnvironmentAction.lazyCollection session slot d shape :
          EnvironmentAction Database (Collection T K)).runOn env = (.ok c, after) ∧
        (⟨c, after⟩ : Setting T K Database).logicalContents = .ok (model.contents m) ∧
        Follows run model steps m ⟨c, after⟩ := by
  obtain ⟨c, after, hrun, hs⟩ := lazyCollection_tracks hoffers hd hm hholds hidentifies
  exact ⟨c, after, hrun, hs.logicalContents_eq hT hK, hs.follows hT hK hcalls steps⟩

end Opening

end LazyCollections
