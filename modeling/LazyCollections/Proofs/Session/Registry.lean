import Mathlib.Logic.Function.Basic
import LazyCollections.Proofs.Session.Standing

/-!
# Owners and attached collections of sessions

A session has every owner once, and an active one knows exactly the collections that are tied to it,
at most one for an owner and a role. Collections are known here by their names and by what ties them
to a session. Attaching a collection where there is a vacancy and releasing it keep the two sides
together, also when one collection takes the name of another.
-/

namespace LazyCollections

set_option autoImplicit false

variable {σ : Type}

/-- What ties each collection to the owner in a session, and the role it is tied in. -/
abbrev Ties := String → Option (Attachment × Role)

/-- The collection of the name is tied to the session, for the owner at the slot, in the role. -/
def Ties.Holds (ties : Ties) (id : SessionId) (slot : Nat) (role : Role) (name : String) : Prop :=
  ∃ a, ties name = some (a, role) ∧ a.session = id ∧ a.slot = slot

/-- The session has every owner once, and if it is active it knows its collections, which `holds`
tells by their names. -/
structure Session.Registers (s : Session σ) (holds : Nat → Role → String → Prop) : Prop where
  owners_nodup : (s.owners.map Owner.id).Nodup
  attached_nodup : s.attached.Nodup
  attached_iff : s.status = .active → ∀ slot role,
    (slot, role) ∈ s.attached ↔ ∃ name, holds slot role name
  unique : s.status = .active → ∀ slot role name other,
    holds slot role name → holds slot role other → name = other

def Environment.HasOwner (env : Environment σ) (a : Attachment) : Prop :=
  ∃ s owner, env.session? a.session = some s ∧ s.owners[a.slot]? = some owner ∧ owner.id = a.owner

def Environment.Serves (env : Environment σ) (id : SessionId) (slot : Nat) : Prop :=
  ∃ s owner, env.session? id = some s ∧ s.status = .active ∧ s.owners[slot]? = some owner

/-- Every session registers what is tied to it, for an owner that it has. -/
structure Environment.Registry (env : Environment σ) (ties : Ties) : Prop where
  registers : ∀ id s, env.session? id = some s → s.Registers (ties.Holds id)
  hasOwner : ∀ name a role, ties name = some (a, role) → env.HasOwner a

namespace Ties

variable {ties : Ties} {id : SessionId} {slot : Nat} {role : Role} {name other : String}

theorem holds_update_some {a : Attachment} {r : Role} (hfree : ¬ties.Holds id slot role name) :
    Holds (Function.update ties name (some (a, r))) id slot role other ↔
      (other = name ∧ a.session = id ∧ a.slot = slot ∧ r = role) ∨
        ties.Holds id slot role other := by
  by_cases hother : other = name
  · subst hother
    simp only [Holds, Function.update_self, true_and]
    constructor
    · rintro ⟨b, hb, hsession, hslot⟩
      cases hb
      exact .inl ⟨hsession, hslot, rfl⟩
    · rintro (⟨hsession, hslot, rfl⟩ | hholds)
      · exact ⟨a, rfl, hsession, hslot⟩
      · exact absurd hholds hfree
  · simp only [Holds, Function.update_of_ne hother, hother, false_and, false_or]

theorem holds_update_none :
    Holds (Function.update ties name none) id slot role other ↔
      other ≠ name ∧ ties.Holds id slot role other := by
  by_cases hother : other = name
  · subst hother
    simp [Holds]
  · simp only [Holds, Function.update_of_ne hother, ne_eq, hother, not_false_eq_true, true_and]

end Ties

theorem Session.owners_close (s : Session σ) : s.close.owners = s.owners := by
  unfold close
  split <;> rfl

namespace Session.Registers

variable {s s' : Session σ} {holds holds' : Nat → Role → String → Prop}

theorem of_bare (h : s.Registers holds) (hbare : s'.bare = s.bare) : s'.Registers holds := by
  have hids (s : Session σ) : s.owners.map Owner.id = s.bare.owners.map Owner.id := by
    simp [bare]
  have howners : s'.owners.map Owner.id = s.owners.map Owner.id := by rw [hids, hbare, ← hids]
  have hattached : s'.attached = s.attached := by
    have hsame := congrArg Session.attached hbare
    exact hsame
  have hstatus : s'.status = s.status := by
    have hsame := congrArg Session.status hbare
    exact hsame
  exact
    { owners_nodup := howners ▸ h.owners_nodup
      attached_nodup := hattached ▸ h.attached_nodup
      attached_iff := by
        rw [hattached, hstatus]
        exact h.attached_iff
      unique := by
        rw [hstatus]
        exact h.unique }

theorem congr (h : s.Registers holds)
    (hholds : ∀ slot role name, holds' slot role name ↔ holds slot role name) :
    s.Registers holds' := by
  have heq : holds' = holds := by
    funext slot role name
    exact propext (hholds slot role name)
  exact heq ▸ h

theorem inactive (howners : (s.owners.map Owner.id).Nodup) (hattached : s.attached.Nodup)
    (hstatus : s.status ≠ .active) : s.Registers holds where
  owners_nodup := howners
  attached_nodup := hattached
  attached_iff hactive := absurd hactive hstatus
  unique hactive := absurd hactive hstatus

theorem close (h : s.Registers holds) : s.close.Registers holds' := by
  unfold Session.close
  split
  next => exact inactive h.owners_nodup List.nodup_nil nofun
  next hactive =>
    refine inactive h.owners_nodup h.attached_nodup ?_
    exact fun hs => hactive (decide_eq_true hs)

theorem finish (h : s.Registers holds) : s.finish.Registers holds' := by
  have hclosed : s.close.Registers holds := h.close
  exact inactive hclosed.owners_nodup hclosed.attached_nodup nofun

theorem addOwner (h : s.Registers holds) {owner : EntityId}
    (hnew : owner ∉ s.owners.map Owner.id) :
    Session.Registers { s with owners := s.owners ++ [⟨owner, false⟩] } holds where
  owners_nodup := by
    rw [List.map_append, List.nodup_append]
    refine ⟨h.owners_nodup, List.nodup_singleton _, ?_⟩
    rintro a ha b hb rfl
    rw [List.map_singleton, List.mem_singleton] at hb
    rw [hb] at ha
    exact hnew ha
  attached_nodup := h.attached_nodup
  attached_iff := h.attached_iff
  unique := h.unique

theorem hold (h : s.Registers holds) {slot : Nat} {role : Role} (name : String)
    (hactive : s.status = .active) (hfree : (slot, role) ∉ s.attached)
    (hholds : ∀ slot' role' other, holds' slot' role' other ↔
      (other = name ∧ slot = slot' ∧ role = role') ∨ holds slot' role' other) :
    Session.Registers { s with attached := (slot, role) :: s.attached } holds' where
  owners_nodup := h.owners_nodup
  attached_nodup := List.nodup_cons.mpr ⟨hfree, h.attached_nodup⟩
  attached_iff := by
    intro _ slot' role'
    simp only [List.mem_cons, Prod.mk.injEq, h.attached_iff hactive, hholds]
    constructor
    · rintro (⟨rfl, rfl⟩ | ⟨other, hother⟩)
      · exact ⟨name, .inl ⟨rfl, rfl, rfl⟩⟩
      · exact ⟨other, .inr hother⟩
    · rintro ⟨other, ⟨rfl, rfl, rfl⟩ | hother⟩
      · exact .inl ⟨rfl, rfl⟩
      · exact .inr ⟨other, hother⟩
  unique := by
    intro _ slot' role' first second hfirst hsecond
    have hunheld (other : String) : ¬holds slot role other :=
      fun hother => hfree ((h.attached_iff hactive slot role).mpr ⟨other, hother⟩)
    rw [hholds] at hfirst hsecond
    rcases hfirst with ⟨rfl, rfl, rfl⟩ | hfirst
    · rcases hsecond with ⟨rfl, -, -⟩ | hsecond
      · rfl
      · exact absurd hsecond (hunheld second)
    · rcases hsecond with ⟨rfl, rfl, rfl⟩ | hsecond
      · exact absurd hfirst (hunheld first)
      · exact h.unique hactive slot' role' first second hfirst hsecond

theorem release (h : s.Registers holds) {slot : Nat} {role : Role} (name : String)
    (hname : ∀ slot' role', holds slot' role' name ↔ slot = slot' ∧ role = role')
    (hholds : ∀ slot' role' other, holds' slot' role' other ↔
      other ≠ name ∧ holds slot' role' other) :
    (s.release slot role).Registers holds' where
  owners_nodup := h.owners_nodup
  attached_nodup := h.attached_nodup.filter _
  attached_iff := by
    intro hactive slot' role'
    have hheld := h.attached_iff hactive slot' role'
    simp only [Session.release, List.mem_filter, decide_eq_true_eq, hheld, hholds, ne_eq,
      Prod.mk.injEq]
    constructor
    · rintro ⟨⟨other, hother⟩, hpair⟩
      refine ⟨other, ?_, hother⟩
      rintro rfl
      obtain ⟨rfl, rfl⟩ := (hname _ _).mp hother
      exact hpair ⟨rfl, rfl⟩
    · rintro ⟨other, hne, hother⟩
      refine ⟨⟨other, hother⟩, ?_⟩
      rintro ⟨rfl, rfl⟩
      have hheldtoo := (hname slot' role').mpr ⟨rfl, rfl⟩
      exact hne (h.unique hactive slot' role' other name hother hheldtoo)
  unique := by
    intro hactive slot' role' first second hfirst hsecond
    exact h.unique hactive slot' role' first second ((hholds _ _ _).mp hfirst).2
      ((hholds _ _ _).mp hsecond).2

end Session.Registers

namespace Environment

theorem session?_onSession_of_ne (env : Environment σ) {id other : SessionId} (h : id ≠ other)
    (f : Session σ → Session σ) : (env.onSession id f).session? other = env.session? other := by
  have hindex : id.index ≠ other.index := fun heq => h (congrArg SessionId.mk heq)
  rw [session?, session?, onSession, List.getElem?_modify_ne f _ hindex]

theorem session?_onSession_self (env : Environment σ) (id : SessionId) (f : Session σ → Session σ) :
    (env.onSession id f).session? id = (env.session? id).map f := by
  rw [session?, session?, onSession, List.getElem?_modify_eq]
  rfl

theorem session?_onSession_eq_some {env : Environment σ} {id other : SessionId}
    {f : Session σ → Session σ} {s : Session σ} (h : (env.onSession id f).session? other = some s) :
    (id = other ∧ ∃ s', env.session? other = some s' ∧ s = f s') ∨
      (id ≠ other ∧ env.session? other = some s) := by
  by_cases hid : id = other
  · subst hid
    rw [session?_onSession_self] at h
    obtain ⟨s', hs', rfl⟩ := Option.map_eq_some_iff.mp h
    exact .inl ⟨rfl, s', hs', rfl⟩
  · rw [env.session?_onSession_of_ne hid] at h
    exact .inr ⟨hid, h⟩

theorem SameSessions.exists_session? {env later : Environment σ} (h : env.SameSessions later)
    {id : SessionId} {s : Session σ} (hs : later.session? id = some s) :
    ∃ s', env.session? id = some s' ∧ s.bare = s'.bare := by
  have heq := h.session?_eq id
  rw [hs, Option.map_some] at heq
  obtain ⟨s', hs', hbare⟩ := Option.map_eq_some_iff.mp heq.symm
  exact ⟨s', hs', hbare.symm⟩

theorem SameSessions.of_session? {env later : Environment σ}
    (h : ∀ id, (later.session? id).map Session.bare = (env.session? id).map Session.bare) :
    env.SameSessions later := by
  apply List.ext_getElem?
  intro i
  rw [List.getElem?_map, List.getElem?_map]
  exact h ⟨i⟩

theorem SameSessions.letGo {env later : Environment σ} (h : env.SameSessions later)
    (tie : Option (Attachment × Role)) : (env.letGo tie).SameSessions (later.letGo tie) := by
  cases tie with
  | none => exact h
  | some tie =>
    obtain ⟨a, role⟩ := tie
    have hrelease (found : Option (Session σ)) :
        (found.map fun s => s.release a.slot role).map Session.bare =
          (found.map Session.bare).map fun s => s.release a.slot role := by
      cases found <;> rfl
    apply of_session?
    intro id
    rw [Environment.letGo, Environment.letGo, release, release]
    by_cases hid : a.session = id
    · rw [hid, session?_onSession_self, session?_onSession_self, hrelease, hrelease, h.session?_eq]
    · rw [later.session?_onSession_of_ne hid, env.session?_onSession_of_ne hid, h.session?_eq]

section OnSession

variable {env : Environment σ} {a : Attachment} {role : Role} {id : SessionId}
variable {f : Session σ → Session σ}

theorem HasOwner.onSession (h : env.HasOwner a) (howners : ∀ s, s.owners <+: (f s).owners) :
    (env.onSession id f).HasOwner a := by
  obtain ⟨s, owner, hs, howner, hid⟩ := h
  by_cases hsession : id = a.session
  · refine ⟨f s, owner, ?_, ?_, hid⟩
    · rw [hsession, session?_onSession_self, hs]
      rfl
    · obtain ⟨more, hmore⟩ := howners s
      rw [← hmore, List.getElem?_append_left (List.getElem?_eq_some_iff.mp howner).1, howner]
  · exact ⟨s, owner, by rw [env.session?_onSession_of_ne hsession, hs], howner, hid⟩

theorem Vacant.hasOwner (h : env.Vacant a role) : env.HasOwner a := by
  obtain ⟨s, owner, hs, -, howner, hid, -⟩ := h
  exact ⟨s, owner, hs, howner, hid⟩

theorem Vacant.release (h : env.Vacant a role) (b : Attachment) (r : Role) :
    (env.release b r).Vacant a role := by
  obtain ⟨s, owner, hs, hactive, howner, hid, hfree⟩ := h
  by_cases hsession : b.session = a.session
  · refine ⟨s.release b.slot r, owner, ?_, hactive, howner, hid, ?_⟩
    · rw [Environment.release, hsession, session?_onSession_self, hs]
      rfl
    · exact fun hmem => hfree (List.mem_filter.mp hmem).1
  · exact ⟨s, owner, by rw [Environment.release, env.session?_onSession_of_ne hsession, hs],
      hactive, howner, hid, hfree⟩

end OnSession

theorem release_hold (env : Environment σ) {a b : Attachment} {role r : Role}
    (hne : b.session = a.session → (b.slot, r) ≠ (a.slot, role)) :
    (env.hold a role).release b r = (env.release b r).hold a role := by
  unfold hold release onSession
  by_cases hsession : b.session = a.session
  · simp only [hsession, List.modify_modify_eq]
    congr 2
    funext s
    have hkept : ((a.slot, role) :: s.attached).filter (· ≠ (b.slot, r)) =
        (a.slot, role) :: s.attached.filter (· ≠ (b.slot, r)) :=
      List.filter_cons_of_pos (decide_eq_true (Ne.symm (hne hsession)))
    simp only [Function.comp, Session.release, hkept]
  · have hindex : a.session.index ≠ b.session.index :=
      fun heq => hsession (congrArg SessionId.mk heq.symm)
    simp only [List.modify_modify_ne _ _ _ hindex]

namespace Registry

variable {env later : Environment σ} {ties : Ties} {name : String} {a : Attachment} {role : Role}

theorem sameSessions (h : env.Registry ties) (hsame : env.SameSessions later) :
    later.Registry ties where
  registers := by
    intro id s hs
    obtain ⟨s', hs', hbare⟩ := hsame.exists_session? hs
    exact (h.registers id s' hs').of_bare hbare
  hasOwner := by
    intro name a role hname
    obtain ⟨s, owner, hs, howner, hid⟩ := h.hasOwner name a role hname
    obtain ⟨s', hs', hbare⟩ := hsame.symm.exists_session? hs
    have howners : s.bare.owners[a.slot]? = some { owner with dirty := false } := by
      simp only [Session.bare, List.getElem?_map, howner, Option.map_some]
    rw [hbare] at howners
    simp only [Session.bare, List.getElem?_map] at howners
    obtain ⟨owner', howner', hsameId⟩ := Option.map_eq_some_iff.mp howners
    exact ⟨s', owner', hs', howner', (congrArg Owner.id hsameId).trans hid⟩

theorem openSession (h : env.Registry ties) (config : SessionConfig) (loader : Loader σ)
    (cached : Bool) : (env.openSession config loader cached).2.Registry ties := by
  have hold {id : SessionId} {s : Session σ} (hs : env.session? id = some s) :
      (env.openSession config loader cached).2.session? id = some s := by
    rw [session?] at hs ⊢
    exact List.getElem?_append_left (List.getElem?_eq_some_iff.mp hs).1 ▸ hs
  refine ⟨?_, ?_⟩
  · intro id s hs
    by_cases hid : id.index < env.sessions.length
    · rw [session?, Environment.openSession, List.getElem?_append_left hid] at hs
      exact h.registers id s hs
    · have hunheld (slot : Nat) (role : Role) (name : String) : ¬ties.Holds id slot role name := by
        rintro ⟨a, hname, rfl, -⟩
        obtain ⟨s', _, hs', -⟩ := h.hasOwner name a role hname
        exact hid (List.getElem?_eq_some_iff.mp hs').1
      rw [session?, Environment.openSession,
        List.getElem?_append_right (Nat.le_of_not_lt hid)] at hs
      obtain rfl := List.mem_singleton.mp (List.mem_of_getElem? hs)
      have hnone (slot : Nat) (role : Role) : ¬∃ name, ties.Holds id slot role name := by
        rintro ⟨name, hname⟩
        exact hunheld slot role name hname
      exact
        { owners_nodup := List.nodup_nil
          attached_nodup := List.nodup_nil
          attached_iff := fun _ slot role => iff_of_false List.not_mem_nil (hnone slot role)
          unique := fun _ slot role name _ hname => absurd hname (hunheld slot role name) }
  · intro name a role hname
    obtain ⟨s, owner, hs, howner⟩ := h.hasOwner name a role hname
    exact ⟨s, owner, hold hs, howner⟩

theorem onSession (h : env.Registry ties) (id : SessionId) {f : Session σ → Session σ}
    (hf : ∀ s, env.session? id = some s → (f s).Registers (ties.Holds id))
    (howners : ∀ s, s.owners <+: (f s).owners) : (env.onSession id f).Registry ties where
  registers := by
    intro other s hs
    rcases session?_onSession_eq_some hs with ⟨rfl, s', hs', rfl⟩ | ⟨-, hs⟩
    · exact hf s' hs'
    · exact h.registers other s hs
  hasOwner name a role hname := (h.hasOwner name a role hname).onSession howners

/-- A new owner is registered only if it is not there already. -/
theorem registerOwner (h : env.Registry ties) (id : SessionId) (owner : EntityId) :
    ((EnvironmentAction.registerOwner id owner).runOn env).2.Registry ties := by
  suffices hensures : EnvironmentAction.Ensures env (EnvironmentAction.registerOwner id owner)
      (fun _ after => after.Registry ties) fun _ after => after.Registry ties from hensures.after
  apply EnvironmentAction.Ensures.get_bind
  refine EnvironmentAction.Ensures.ofExcept_cases (fun s hs => ?_) fun _ _ => h
  split
  next => exact EnvironmentAction.Ensures.pure h
  next hnew =>
    apply EnvironmentAction.Ensures.modify_bind
    refine EnvironmentAction.Ensures.pure (h.onSession id ?_ fun s => List.prefix_append _ _)
    intro s' hs'
    obtain rfl := Option.some.inj (hs'.symm.trans (activeSession_eq_ok.mp hs).1)
    refine (h.registers id s' hs').addOwner ?_
    rw [List.mem_map]
    rintro ⟨known, hknown, rfl⟩
    simpa using List.findIdx?_eq_none_iff.mp hnew known hknown

theorem closeSession (h : env.Registry ties) (id : SessionId) :
    (env.closeSession id).Registry ties := by
  refine h.onSession id ?_ ?_
  · exact fun s hs => (h.registers id s hs).close
  · exact fun s => s.owners_close ▸ List.prefix_refl _

theorem endSession (h : env.Registry ties) (id : SessionId) :
    (env.endSession id).Registry ties := by
  refine h.onSession id ?_ ?_
  · exact fun s hs => (h.registers id s hs).finish
  · exact fun s => s.owners_close ▸ List.prefix_refl _

theorem hold (h : env.Registry ties) (hname : ties name = none) (hvacant : env.Vacant a role) :
    (env.hold a role).Registry (Function.update ties name (some (a, role))) where
  registers := by
    have hfree (id : SessionId) (slot : Nat) (role' : Role) : ¬ties.Holds id slot role' name := by
      rintro ⟨b, hb, -⟩
      exact nomatch hname.symm.trans hb
    intro id s hs
    rcases session?_onSession_eq_some hs with ⟨rfl, s', hs', rfl⟩ | ⟨hid, hs⟩
    · obtain ⟨s, owner, hfound, hactive, -, -, hunattached⟩ := hvacant
      obtain rfl := Option.some.inj (hs'.symm.trans hfound)
      refine (h.registers _ _ hs').hold name hactive hunattached ?_
      intro slot role' other
      rw [Ties.holds_update_some (hfree _ _ _), eq_self, true_and]
    · refine (h.registers id s hs).congr fun slot role' other => ?_
      rw [Ties.holds_update_some (hfree _ _ _)]
      exact or_iff_right fun hnew => hid hnew.2.1
  hasOwner := by
    intro other b role' hother
    by_cases heq : other = name
    · rw [heq, Function.update_self] at hother
      cases hother
      exact hvacant.hasOwner.onSession fun _ => List.prefix_refl _
    · rw [Function.update_of_ne heq] at hother
      exact (h.hasOwner other b role' hother).onSession fun _ => List.prefix_refl _

theorem letGo (h : env.Registry ties) (name : String) :
    (env.letGo (ties name)).Registry (Function.update ties name none) := by
  cases hname : ties name with
  | none =>
    have hsame : Function.update ties name none = ties := by rw [← hname, Function.update_eq_self]
    rw [hsame]
    exact h
  | some tie =>
    obtain ⟨a, role⟩ := tie
    refine ⟨?_, ?_⟩
    · intro id s hs
      rcases session?_onSession_eq_some hs with ⟨rfl, s', hs', rfl⟩ | ⟨hid, hs⟩
      · refine (h.registers _ s' hs').release name ?_ fun _ _ _ => Ties.holds_update_none
        intro slot role'
        simp only [Ties.Holds, hname]
        constructor
        · rintro ⟨b, hb, -, hslot⟩
          cases hb
          exact ⟨hslot, rfl⟩
        · rintro ⟨hslot, rfl⟩
          exact ⟨a, rfl, rfl, hslot⟩
      · refine (h.registers id s hs).congr fun slot role' other => ?_
        rw [Ties.holds_update_none, and_iff_right_iff_imp]
        rintro ⟨b, hb, hsession, -⟩ rfl
        rw [hname] at hb
        cases hb
        exact hid hsession
    · intro other b role' hother
      by_cases heq : other = name
      · rw [heq, Function.update_self] at hother
        cases hother
      · rw [Function.update_of_ne heq] at hother
        exact (h.hasOwner other b role' hother).onSession fun _ => List.prefix_refl _

/-- A collection is attached where there is a vacancy, and then the one that had its name before is
released. -/
theorem replace (h : env.Registry ties) (name : String) (hvacant : env.Vacant a role) :
    ((env.hold a role).letGo (ties name)).Registry
      (Function.update ties name (some (a, role))) := by
  have hgone := h.letGo name
  have hheld : ((env.letGo (ties name)).hold a role).Registry
      (Function.update (Function.update ties name none) name (some (a, role))) := by
    refine hgone.hold (Function.update_self _ _ _) ?_
    cases ties name with
    | none => exact hvacant
    | some tie => exact hvacant.release tie.1 tie.2
  rw [Function.update_idem] at hheld
  suffices heq : (env.hold a role).letGo (ties name) = (env.letGo (ties name)).hold a role by
    rw [heq]
    exact hheld
  cases hname : ties name with
  | none => rfl
  | some tie =>
    obtain ⟨b, r⟩ := tie
    apply env.release_hold
    -- What was vacant cannot have been the old tie, which its session has registered.
    rintro hsession hpair
    obtain ⟨s, owner, hs, hactive, -, -, hfree⟩ := hvacant
    obtain ⟨hslot, rfl⟩ := Prod.mk.inj hpair
    exact hfree (((h.registers _ s hs).attached_iff hactive _ _).mpr
      ⟨name, b, hname, hsession, hslot⟩)

theorem noVacancy_iff (h : env.Registry ties) {id : SessionId} {slot : Nat}
    (hserves : env.Serves id slot) :
    env.NoVacancy id slot role ↔ ∃ name, ties.Holds id slot role name := by
  obtain ⟨s, owner, hs, hactive, howner⟩ := hserves
  rw [← (h.registers id s hs).attached_iff hactive slot role]
  constructor
  · intro hoccupied
    by_contra hfree
    exact hoccupied ⟨id, slot, owner.id⟩ rfl rfl ⟨s, owner, hs, hactive, howner, rfl, hfree⟩
  · rintro hheld a rfl rfl ⟨s', _, hs', -, -, -, hfree⟩
    obtain rfl := Option.some.inj (hs.symm.trans hs')
    exact hfree hheld

end Registry

end Environment

end LazyCollections
