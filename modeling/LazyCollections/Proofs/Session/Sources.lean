import LazyCollections.Proofs.Collection.Asking
import LazyCollections.Proofs.Session.Standing
import LazyCollections.Proofs.Storage.Keeping

/-!
# Sessions on the database

Where all sessions load from the database, collections change its rows by flushes only. Loading and
probing leave the rows as they are, and where sessions load from.
-/

namespace LazyCollections

set_option autoImplicit false

variable {T : ElementType} {K : Scalar} {α β : Type}

theorem Database.sameRows_onStore {question : Store → α × Store}
    (h : ∀ store : Store, store.Agrees (question store).2) (db : Database) :
    db.store.SameRows (onStore question db).2.store :=
  (h db.store).sameRows

namespace Environment

variable {env later last : Environment Database}

def OnDatabase (env : Environment Database) : Prop :=
  ∀ session ∈ env.sessions, session.loader = Database.loader

/-- Sessions load from where they did, and the rows are the same. -/
structure SameSources (env later : Environment Database) : Prop where
  loaders : later.sessions.map Session.loader = env.sessions.map Session.loader
  rows : env.source.store.SameRows later.source.store

theorem SameSources.refl (env : Environment Database) : env.SameSources env :=
  ⟨rfl, .refl _⟩

theorem SameSources.trans (h : env.SameSources later) (hlast : later.SameSources last) :
    env.SameSources last :=
  ⟨hlast.loaders.trans h.loaders, h.rows.trans hlast.rows⟩

theorem loaders_of_terms (h : later.sessions.map Session.terms = env.sessions.map Session.terms) :
    later.sessions.map Session.loader = env.sessions.map Session.loader := by
  have hloaders (env : Environment Database) : env.sessions.map Session.loader =
      (env.sessions.map Session.terms).map fun terms => terms.2.1 := by
    rw [List.map_map]
    rfl
  rw [hloaders later, hloaders env, h]

theorem Records.sameSources (h : env.Records later) : env.SameSources later :=
  ⟨loaders_of_terms h.sessions, h.agrees.store.sameRows⟩

theorem Tended.sameSources (h : env.Tended later) : env.SameSources later where
  loaders := loaders_of_terms (terms_of_bare h.sessions)
  rows := by
    rw [h.source]
    exact .refl _

theorem OnDatabase.of_loaders (h : env.OnDatabase)
    (hloaders : later.sessions.map Session.loader = env.sessions.map Session.loader) :
    later.OnDatabase := by
  intro session hsession
  have hloader := List.mem_map_of_mem (f := Session.loader) hsession
  rw [hloaders] at hloader
  obtain ⟨before, hbefore, heq⟩ := List.mem_map.mp hloader
  rw [← heq]
  exact h before hbefore

theorem OnDatabase.congr (h : env.OnDatabase) (hsame : env.SameSources later) :
    later.OnDatabase :=
  h.of_loaders hsame.loaders

theorem OnDatabase.loader_eq (h : env.OnDatabase) {c : Collection T K}
    {session : Session Database} {a : Attachment} (hsession : c.session env = .ok (session, a)) :
    session.loader = Database.loader :=
  h session (List.mem_of_getElem? (Collection.session_eq_ok hsession).2.1)

end Environment

namespace EnvironmentAction

def SparesRows (action : EnvironmentAction Database α) : Prop :=
  ∀ env, Ensures env action (fun _ => env.SameSources) fun _ => env.SameSources

theorem Tends.sparesRows {action : EnvironmentAction Database α} (h : Tends action) :
    SparesRows action :=
  fun env => (h env).mono (fun _ _ hafter => hafter.sameSources) fun _ _ hafter =>
    hafter.sameSources

namespace SparesRows

theorem bind {action : EnvironmentAction Database α} {next : α → EnvironmentAction Database β}
    (h : SparesRows action) (hnext : ∀ a, SparesRows (next a)) : SparesRows (action >>= next) :=
  fun env => (h env).bind fun a after hafter =>
    (hnext a after).mono (fun _ _ => hafter.trans) fun _ _ => hafter.trans

theorem ask {question : Database → Except Error α × Database}
    (h : ∀ db : Database, db.store.SameRows (question db).2.store) :
    SparesRows (.ask question) := by
  intro env
  apply Ensures.ask
  have hrows := h env.source
  split
  next hrun =>
    rw [hrun] at hrows
    exact ⟨rfl, hrows⟩
  next hrun =>
    rw [hrun] at hrows
    exact ⟨rfl, hrows⟩

variable {session : Session Database} (hloader : session.loader = Database.loader)
include hloader

theorem ask_hasElement (key : CollectionKey) (id : Value) :
    SparesRows (.ask (session.loader.hasElement key id)) := by
  rw [hloader]
  exact ask (Database.sameRows_onStore fun store => store.agrees_probe key _)

theorem ask_elementAt (key : CollectionKey) (slot : RowSlot) :
    SparesRows (.ask (session.loader.elementAt key slot)) := by
  rw [hloader]
  exact ask (Database.sameRows_onStore fun store => store.agrees_probe key _)

theorem loadContents (d : Descriptor) (a : Attachment) :
    SparesRows (loadContents session d a : EnvironmentAction Database (Aggregate T K)) := by
  apply tends_readCache.sparesRows.bind
  intro found
  cases found with
  | some contents => exact (Tends.pure _).sparesRows
  | none =>
    rw [hloader]
    refine bind (ask fun db => (db.store.agrees_load (keyOf d a)).sameRows) fun contents => ?_
    exact ((Tends.tally _ _).bind fun _ =>
      (tends_writeCache contents).bind fun _ => .pure _).sparesRows

end SparesRows

theorem ask_size_ensures {session : Session Database} (hloader : session.loader = Database.loader)
    (env : Environment Database) (d : Descriptor) (owner : EntityId) :
    Ensures env (.ask (session.loader.size ⟨d.role, owner⟩))
      (fun found after => env.SameSources after ∧
        ∀ n, found = some n → n = env.source.store.rowCount d owner)
      fun _ => env.SameSources := by
  have hsame {later : Store} (hlater : env.source.store.Agrees later) :
      env.SameSources { env with source := { env.source with store := later } } :=
    ⟨rfl, hlater.sameRows⟩
  rw [hloader, ← Store.getD_size_rows?]
  apply Ensures.ask
  simp only [Database.loader, Database.onStore, Store.size]
  rcases Store.probe_cases env.source.store ⟨d.role, owner⟩
    fun stored => (stored.map StoredRows.size).getD 0 with
    ⟨-, h⟩ | ⟨later, hlater, h⟩ | ⟨later, hlater, h⟩
  · rw [h]
    exact hsame (.refl _)
  · rw [h]
    refine ⟨hsame hlater, ?_⟩
    rintro n ⟨⟩
  · rw [h]
    refine ⟨hsame hlater, ?_⟩
    rintro n ⟨⟩
    rfl

end EnvironmentAction

end LazyCollections
