import LazyCollections.Collection.Probing
import LazyCollections.Proofs.Except

/-!
# What actions ensure

An action that is started in a setting either succeeds and leaves a result and a setting of one
kind, or fails and leaves an error and a setting of another. What an action of several steps ensures
follows from what its steps ensure, each started where the one before it ended.
-/

namespace LazyCollections

set_option autoImplicit false

variable {T : ElementType} {K : Scalar} {σ α β : Type}

theorem Environment.activeSession_eq_ok {env : Environment σ} {id : SessionId}
    {session : Session σ} :
    env.activeSession id = .ok session ↔
      env.session? id = some session ∧ session.status = .active := by
  unfold activeSession
  cases env.session? id with
  | none => exact ⟨nofun, fun h => nomatch h.1⟩
  | some found =>
    constructor
    · intro h
      obtain ⟨_, hactive, hfound⟩ := bind_eq_ok.mp h
      cases hfound
      refine ⟨rfl, ?_⟩
      unfold Session.checkActive at hactive
      split at hactive
      next hstatus => exact hstatus
      next => cases hactive
      next => cases hactive
    · rintro ⟨⟨⟩, hactive⟩
      simp only [Session.checkActive, hactive]
      rfl

theorem Collection.session_eq_ok_iff {c : Collection T K} {env : Environment σ} {a : Attachment}
    {session : Session σ} :
    c.session env = .ok (session, a) ↔
      c.attachment = some a ∧ env.session? a.session = some session ∧ session.status = .active := by
  rw [← Environment.activeSession_eq_ok, Collection.session]
  cases c.attachment with
  | none => exact ⟨nofun, fun h => nomatch h.1⟩
  | some b =>
    constructor
    · intro h
      obtain ⟨found, hactive, hfound⟩ := bind_eq_ok.mp h
      cases hfound
      exact ⟨rfl, hactive⟩
    · rintro ⟨⟨⟩, hactive⟩
      exact bind_eq_ok.mpr ⟨session, hactive, rfl⟩

theorem Collection.session_eq {c : Collection T K} {env : Environment σ} {a : Attachment}
    {session : Session σ} (hattachment : c.attachment = some a)
    (hfound : env.session? a.session = some session) (hactive : session.status = .active) :
    c.session env = .ok (session, a) :=
  session_eq_ok_iff.mpr ⟨hattachment, hfound, hactive⟩

theorem Collection.session_eq_ok {c : Collection T K} {env : Environment σ} {a : Attachment}
    {session : Session σ} (h : c.session env = .ok (session, a)) :
    c.attachment = some a ∧ env.session? a.session = some session ∧ session.status = .active :=
  session_eq_ok_iff.mp h

theorem Collection.session_eq_error {c : Collection T K} {env : Environment σ} {error : Error}
    (h : c.session env = .error error) : ∃ cause, error = .lifecycle cause := by
  unfold Collection.session at h
  split at h
  next =>
    cases h
    exact ⟨_, rfl⟩
  next a _ =>
    unfold Environment.activeSession at h
    cases hfound : env.session? a.session with
    | none =>
      rw [hfound] at h
      cases h
      exact ⟨_, rfl⟩
    | some found =>
      rw [hfound] at h
      cases hstatus : found.status with
      | active =>
        simp only [Session.checkActive, hstatus] at h
        cases h
      | closed =>
        simp only [Session.checkActive, hstatus] at h
        cases h
        exact ⟨_, rfl⟩
      | ended =>
        simp only [Session.checkActive, hstatus] at h
        cases h
        exact ⟨_, rfl⟩

namespace EnvironmentAction

@[simp] theorem runOn_ask (question : σ → Except Error α × σ) (env : Environment σ) :
    (ask question).runOn env =
      ((question env.source).1, { env with source := (question env.source).2 }) := by
  simp only [ask, runOn_bind, runOn_get]
  exact runOn_ofExcept (question env.source).1 _

/-- Started in `env`, the action leaves its result with `Q` or its failure with `E`. -/
def Ensures (env : Environment σ) (action : EnvironmentAction σ α)
    (Q : α → Environment σ → Prop) (E : Error → Environment σ → Prop) : Prop :=
  match action.runOn env with
  | (.ok a, after) => Q a after
  | (.error error, after) => E error after

namespace Ensures

variable {env : Environment σ} {action : EnvironmentAction σ α}
variable {Q Q' : α → Environment σ → Prop} {R : β → Environment σ → Prop}
variable {E E' : Error → Environment σ → Prop}

theorem mono (h : Ensures env action Q E) (hQ : ∀ a after, Q a after → Q' a after)
    (hE : ∀ error after, E error after → E' error after) : Ensures env action Q' E' := by
  rw [Ensures] at h ⊢
  cases hrun : action.runOn env with
  | mk result after =>
    rw [hrun] at h
    cases result with
    | ok a => exact hQ a after h
    | error error => exact hE error after h

theorem after {P : Environment σ → Prop} (h : Ensures env action (fun _ => P) fun _ => P) :
    P (action.runOn env).2 := by
  rw [Ensures] at h
  cases hrun : action.runOn env with
  | mk result after =>
    rw [hrun] at h
    cases result <;> exact h

theorem anything (env : Environment σ) (action : EnvironmentAction σ α) :
    Ensures env action (fun _ _ => True) fun _ _ => True := by
  rw [Ensures]
  split <;> trivial

theorem pure {a : α} (h : Q a env) : Ensures env (Pure.pure a) Q E :=
  h

theorem throw {error : Error} (h : E error env) :
    Ensures env (MonadExcept.throw error : EnvironmentAction σ α) Q E :=
  h

theorem bind {next : α → EnvironmentAction σ β} (h : Ensures env action Q E)
    (hnext : ∀ a after, Q a after → Ensures after (next a) R E) :
    Ensures env (action >>= next) R E := by
  rw [Ensures] at h ⊢
  rw [runOn_bind]
  cases hrun : action.runOn env with
  | mk result after =>
    rw [hrun] at h
    cases result with
    | ok a => exact hnext a after h
    | error error => exact h

theorem get_bind {next : Environment σ → EnvironmentAction σ β} (h : Ensures env (next env) R E) :
    Ensures env (MonadState.get >>= next) R E :=
  h

theorem modify_bind {f : Environment σ → Environment σ} {next : Unit → EnvironmentAction σ β}
    (h : Ensures (f env) (next ()) R E) : Ensures env (modify f >>= next) R E :=
  h

theorem tally {id : SessionId} {count : SessionStats → SessionStats}
    {Q : Unit → Environment σ → Prop}
    (h : Q () (env.onSession id fun s => { s with stats := count s.stats })) :
    Ensures env (EnvironmentAction.tally id count) Q E :=
  h

theorem tally_bind {id : SessionId} {count : SessionStats → SessionStats}
    {next : Unit → EnvironmentAction σ β}
    (h : Ensures (env.onSession id fun s => { s with stats := count s.stats }) (next ()) R E) :
    Ensures env (EnvironmentAction.tally id count >>= next) R E :=
  h

theorem ofExcept_bind {result : Except Error α} {a : α} {next : α → EnvironmentAction σ β}
    (hresult : result = .ok a) (h : Ensures env (next a) R E) :
    Ensures env ((liftM result : EnvironmentAction σ α) >>= next) R E := by
  rw [Ensures, runOn_bind, runOn_ofExcept, hresult]
  exact h

/-- A lifted result is used, or its failure leaves the environment as it is. -/
theorem ofExcept_cases {result : Except Error α} {next : α → EnvironmentAction σ β}
    (hok : ∀ a, result = .ok a → Ensures env (next a) R E)
    (herror : ∀ error, result = .error error → E error env) :
    Ensures env ((liftM result : EnvironmentAction σ α) >>= next) R E := by
  rw [Ensures, runOn_bind, runOn_ofExcept]
  cases result with
  | ok a => exact hok a rfl
  | error error => exact herror error rfl

theorem ask {question : σ → Except Error α × σ}
    (h : match question env.source with
      | (.ok a, source) => Q a { env with source }
      | (.error error, source) => E error { env with source }) :
    Ensures env (EnvironmentAction.ask question) Q E := by
  rw [Ensures]
  simp only [EnvironmentAction.ask, runOn_bind, runOn_get]
  cases hrun : question env.source with
  | mk answer source =>
    rw [hrun] at h
    cases answer <;> exact h

end Ensures

end EnvironmentAction

namespace Action

theorem isLoaded_eq_false {s : Setting T K σ} (h : s.collection.stage = .uninitialized) :
    s.collection.isLoaded = false := by
  rw [Collection.isLoaded, h]
  rfl

theorem runOn_activeSession {s : Setting T K σ} {found : Session σ × Attachment}
    (h : s.collection.session s.environment = .ok found) :
    (activeSession : Action T K σ (Session σ × Attachment)).runOn s = (.ok found, s) := by
  simp only [activeSession, runOn_bind, runOn_collection, runOn_environment, h]
  rfl

theorem runOn_activeSession_lost {s : Setting T K σ} {error : Error}
    (h : s.collection.session s.environment = .error error) :
    (activeSession : Action T K σ (Session σ × Attachment)).runOn s =
      (.error error, { s with collection := s.collection.loseSession }) := by
  simp only [activeSession, runOn_bind, runOn_collection, runOn_environment, h,
    runOn_modifyCollection, runOn_throw]

/-- Started in `s`, the action leaves its result with `Q` or its failure with `E`. -/
def Ensures (s : Setting T K σ) (action : Action T K σ α) (Q : α → Setting T K σ → Prop)
    (E : Error → Setting T K σ → Prop) : Prop :=
  match action.runOn s with
  | (.ok a, after) => Q a after
  | (.error error, after) => E error after

namespace Ensures

variable {s : Setting T K σ} {action : Action T K σ α}
variable {Q Q' : α → Setting T K σ → Prop} {R : β → Setting T K σ → Prop}
variable {E E' : Error → Setting T K σ → Prop}

theorem elim {G : Except Error α → Setting T K σ → Prop} (h : Ensures s action Q E)
    (hok : ∀ a after, Q a after → G (.ok a) after)
    (herror : ∀ error after, E error after → G (.error error) after) :
    G (action.runOn s).1 (action.runOn s).2 := by
  rw [Ensures] at h
  cases hrun : action.runOn s with
  | mk result after =>
    rw [hrun] at h
    cases result with
    | ok a => exact hok a after h
    | error error => exact herror error after h

theorem after {R : Setting T K σ → Prop} (h : Ensures s action (fun _ => R) fun _ => R) :
    R (action.runOn s).2 :=
  h.elim (G := fun _ after => R after) (fun _ _ hR => hR) fun _ _ hR => hR

theorem ok {a : α} (h : Ensures s action Q E) (hrun : (action.runOn s).1 = .ok a) :
    Q a (action.runOn s).2 := by
  rw [Ensures] at h
  cases hresult : action.runOn s with
  | mk result after =>
    rw [hresult] at h hrun
    cases hrun
    exact h

theorem error {error : Error} (h : Ensures s action Q E)
    (hrun : (action.runOn s).1 = .error error) : E error (action.runOn s).2 := by
  rw [Ensures] at h
  cases hresult : action.runOn s with
  | mk result after =>
    rw [hresult] at h hrun
    cases hrun
    exact h

theorem of_after {R : Setting T K σ → Prop} (h : R (action.runOn s).2) :
    Ensures s action (fun _ => R) fun _ => R := by
  rw [Ensures]
  cases hrun : action.runOn s with
  | mk result after =>
    rw [hrun] at h
    cases result <;> exact h

theorem mono (h : Ensures s action Q E) (hQ : ∀ a after, Q a after → Q' a after)
    (hE : ∀ error after, E error after → E' error after) : Ensures s action Q' E' := by
  rw [Ensures] at h ⊢
  cases hrun : action.runOn s with
  | mk result after =>
    rw [hrun] at h
    cases result with
    | ok a => exact hQ a after h
    | error error => exact hE error after h

theorem post (h : Ensures s action Q E) (hQ : ∀ a after, Q a after → Q' a after) :
    Ensures s action Q' E :=
  h.mono hQ fun _ _ hE => hE

theorem failing (h : Ensures s action Q E) (hE : ∀ error after, E error after → E' error after) :
    Ensures s action Q E' :=
  h.mono (fun _ _ hQ => hQ) hE

theorem pure {a : α} (h : Q a s) : Ensures s (Pure.pure a) Q E :=
  h

theorem throw {error : Error} (h : E error s) :
    Ensures s (MonadExcept.throw error : Action T K σ α) Q E :=
  h

theorem bind {next : α → Action T K σ β} (h : Ensures s action Q E)
    (hnext : ∀ a after, Q a after → Ensures after (next a) R E) :
    Ensures s (action >>= next) R E := by
  rw [Ensures] at h ⊢
  rw [runOn_bind]
  cases hrun : action.runOn s with
  | mk result after =>
    rw [hrun] at h
    cases result with
    | ok a => exact hnext a after h
    | error error => exact h

theorem tryCatch {handle : Error → Action T K σ α} {F : Error → Setting T K σ → Prop}
    (h : Ensures s action Q F)
    (hhandle : ∀ error after, F error after → Ensures after (handle error) Q E) :
    Ensures s (MonadExcept.tryCatch action handle) Q E := by
  rw [Ensures] at h ⊢
  rw [runOn_tryCatch]
  cases hrun : action.runOn s with
  | mk result after =>
    rw [hrun] at h
    cases result with
    | ok a => exact h
    | error error => exact hhandle error after h

theorem ofExcept {result : Except Error α} {a : α} (hresult : result = .ok a) (h : Q a s) :
    Ensures s (liftM result) Q E := by
  rw [Ensures, runOn_ofExcept, hresult]
  exact h

theorem ofExcept_bind {result : Except Error α} {a : α} {next : α → Action T K σ β}
    (hresult : result = .ok a) (h : Ensures s (next a) R E) :
    Ensures s ((liftM result : Action T K σ α) >>= next) R E := by
  rw [Ensures, runOn_bind, runOn_ofExcept, hresult]
  exact h

theorem ofExcept_cases {result : Except Error α} {next : α → Action T K σ β}
    (hok : ∀ a, result = .ok a → Ensures s (next a) R E)
    (herror : ∀ error, result = .error error → E error s) :
    Ensures s ((liftM result : Action T K σ α) >>= next) R E := by
  rw [Ensures, runOn_bind, runOn_ofExcept]
  cases result with
  | ok a => exact hok a rfl
  | error error => exact herror error rfl

theorem collection_bind {next : Collection T K → Action T K σ β}
    (h : Ensures s (next s.collection) R E) : Ensures s (collection >>= next) R E := by
  rw [Ensures, runOn_bind, runOn_collection]
  exact h

theorem environment_bind {next : Environment σ → Action T K σ β}
    (h : Ensures s (next s.environment) R E) : Ensures s (environment >>= next) R E := by
  rw [Ensures, runOn_bind, runOn_environment]
  exact h

theorem activeSession_bind {found : Session σ × Attachment}
    {next : Session σ × Attachment → Action T K σ β}
    (hfound : s.collection.session s.environment = .ok found) (h : Ensures s (next found) R E) :
    Ensures s (activeSession >>= next) R E := by
  rw [Ensures, runOn_bind, runOn_activeSession hfound]
  exact h

theorem of_modifyCollection {f : Collection T K → Collection T K} {Q : Unit → Setting T K σ → Prop}
    (h : Q () { s with collection := f s.collection }) :
    Ensures s (Action.modifyCollection f) Q E :=
  h

theorem of_modifyEnvironment {f : Environment σ → Environment σ} {Q : Unit → Setting T K σ → Prop}
    (h : Q () { s with environment := f s.environment }) :
    Ensures s (Action.modifyEnvironment f) Q E :=
  h

theorem modifyCollection_bind {f : Collection T K → Collection T K}
    {next : Unit → Action T K σ β}
    (h : Ensures { s with collection := f s.collection } (next ()) R E) :
    Ensures s (modifyCollection f >>= next) R E := by
  rw [Ensures, runOn_bind, runOn_modifyCollection]
  exact h

theorem onEnvironment {inner : EnvironmentAction σ α}
    (h : match inner.runOn s.environment with
      | (.ok a, environment) => Q a { s with environment }
      | (.error error, environment) => E error { s with environment }) :
    Ensures s (Action.onEnvironment inner) Q E := by
  rw [Ensures, runOn_onEnvironment]
  cases hrun : inner.runOn s.environment with
  | mk result environment =>
    rw [hrun] at h
    cases result with
    | ok a => exact h
    | error error => exact h

theorem of_environment {inner : EnvironmentAction σ α} {Q' : α → Environment σ → Prop}
    {E' : Error → Environment σ → Prop}
    (h : EnvironmentAction.Ensures s.environment inner Q' E')
    (hQ : ∀ a env, Q' a env → Q a { s with environment := env })
    (hE : ∀ error env, E' error env → E error { s with environment := env }) :
    Ensures s (Action.onEnvironment inner) Q E := by
  apply onEnvironment
  rw [EnvironmentAction.Ensures] at h
  cases hrun : inner.runOn s.environment with
  | mk result env =>
    rw [hrun] at h
    cases result with
    | ok a => exact hQ a env h
    | error error => exact hE error env h

end Ensures

theorem mayQueue_ensures {s : Setting T K σ} {E : Error → Setting T K σ → Prop} :
    Ensures s mayQueue
      (fun allowed s' => s' = s ∧ (allowed = true → s.collection.stage = .uninitialized)) E := by
  apply Ensures.collection_bind
  apply Ensures.environment_bind
  apply Ensures.pure
  refine ⟨rfl, ?_⟩
  intro hallowed
  simp only [Collection.mayQueue, Bool.and_eq_true, decide_eq_true_eq] at hallowed
  exact hallowed.1.1.1

end Action

end LazyCollections
