import LazyCollections.Collection.Call
import LazyCollections.Proofs.Refinement.Flushing

/-!
# Runs on a collection and on a plain model of it

A run calls a collection, loads it and flushes it, while the store goes offline and comes back,
probes are refused and answered, and the persister is told to refuse. Such a run follows a plain
model if every step gives the answer of the model, or fails because of an outage and leaves the
logical contents alone, and if a flush that succeeds leaves what the model holds stored.
-/

namespace LazyCollections

set_option autoImplicit false

variable {T : ElementType} {K : Scalar}

/-- What the store would deliver for a collection if it were online. -/
def Store.contents (store : Store) (key : CollectionKey) (shape : Shape) :
    Except Error (Aggregate T K) :=
  (load key { store with offline := false }).1.contents shape

theorem Store.contents_eq {store : Store} {key : CollectionKey} {a : Aggregate T K}
    (hT : T.Storable) (hK : K.Restores) (ha : a.KeyedById) (h : store.HoldsAt key a) :
    store.contents key a.shape = .ok a := by
  have hholds : Store.HoldsAt { store with offline := false } key a := h
  exact contents_load hT hK rfl ha hholds

/-- The contents of a collection: the loaded ones, or what is stored with the queue replayed. -/
def Setting.logicalContents (s : Setting T K Database) : Except Error (Aggregate T K) := do
  if s.collection.isLoaded then return s.collection.contents
  else
    match s.collection.attachment with
    | none => throw (.lifecycle (.unattached s.collection.role))
    | some a =>
      let stored ← s.environment.source.store.contents ⟨s.collection.role, a.owner⟩
        s.collection.descriptor.shape
      replay s.collection.queue stored

theorem Tracks.logicalContents_eq {d : Descriptor} {a : Attachment} {t : Trouble}
    {stored now : Aggregate T K} {s : Setting T K Database} (hT : T.Lawful d.shape)
    (hK : K.Restores) (hs : Tracks d a t stored now s) : s.logicalContents = .ok now := by
  cases hs.standsFor with
  | loaded stage contents queue snapshot clean =>
    have hloaded : s.collection.isLoaded = true := by
      rw [Collection.isLoaded, stage]
      rfl
    rw [Setting.logicalContents, if_pos hloaded, contents]
    rfl
  | unloaded stage run size =>
    have hunloaded : s.collection.isLoaded = false := by
      rw [Collection.isLoaded, stage]
      rfl
    have hcontents : s.environment.source.store.contents ⟨d.role, a.owner⟩ d.shape =
        .ok stored := by
      rw [← hs.stored_inOrder.shape_eq]
      exact Store.contents_eq hT.toStorable hK hs.stored_inOrder.keyedById hs.holds
    rw [Setting.logicalContents, hunloaded, hs.attachment, Collection.role, hs.descriptor,
      if_neg Bool.false_ne_true]
    simp only [hcontents]
    exact run.replay_eq hT.isDirty_self

inductive Step (Call : Type) where
  | call (c : Call)
  | ensureInitialized
  | flush
  | setOffline (offline : Bool)
  | setProbes (enabled : Bool)
  /-- The persister is told to refuse the next change. -/
  | refuseNext

/-- A plain data structure with the calls of a collection. -/
structure PlainModel (T : ElementType) (K : Scalar) (Call M : Type) where
  answer : Call → M → Except Error (Answer T K) × M
  contents : M → Aggregate T K

def onDatabase (f : Database → Database) : Action T K Database Unit :=
  Action.modifyEnvironment fun env => { env with source := f env.source }

namespace Step

variable {Call M : Type}

def perform (run : Call → Action T K Database (Answer T K)) :
    Step Call → Action T K Database (Answer T K)
  | call c => run c
  | ensureInitialized => do
    Action.ensureInitialized
    return .done
  | flush => do
    let _ ← Action.flush Database.persister
    return .done
  | setOffline offline => do
    onDatabase fun db => { db with store := { db.store with offline } }
    return .done
  | setProbes enabled => do
    onDatabase fun db => { db with store := { db.store with probesEnabled := enabled } }
    return .done
  | refuseNext => do
    onDatabase fun db => { db with refuseNext := true }
    return .done

def onModel (model : PlainModel T K Call M) (m : M) : Step Call → Except Error (Answer T K) × M
  | call c => model.answer c m
  | _ => (.ok .done, m)

/-- The failure that a step has to expect of a database. -/
def outage (db : Database) : Step Call → Option Error
  | call _ | ensureInitialized =>
    if db.store.offline then some (.sourceUnavailable .offline) else none
  | flush => if db.refuseNext then some (.sourceUnavailable .refused) else none
  | setOffline _ | setProbes _ | refuseNext => none

end Step

def Setting.stores (s : Setting T K Database) (contents : Aggregate T K) : Prop :=
  ∃ a, s.collection.attachment = some a ∧
    s.environment.source.store.HoldsAt ⟨s.collection.role, a.owner⟩ contents

/-- A run on a collection follows a model: every step fails because of an outage and leaves the
logical contents, or has the answer of the model and leaves its contents, which are stored after a
flush. -/
def Follows {Call M : Type} (run : Call → Action T K Database (Answer T K))
    (model : PlainModel T K Call M) : List (Step Call) → M → Setting T K Database → Prop
  | [], _, _ => True
  | step :: steps, m, s =>
    let (result, after) := (step.perform run).runOn s
    let (expected, next) := step.onModel model m
    ((∃ error, step.outage s.environment.source = some error ∧ result = .error error) ∧
        after.logicalContents = s.logicalContents ∧ Follows run model steps m after) ∨
      (result = expected ∧ after.logicalContents = .ok (model.contents next) ∧
        (step = .flush → after.stores (model.contents next)) ∧ Follows run model steps next after)

section Runs

variable {Call M : Type} {run : Call → Action T K Database (Answer T K)}
variable {model : PlainModel T K Call M} {d : Descriptor} {a : Attachment}

/-- An action has a result and leaves the collection standing for `next`, or it fails because the
store is offline. -/
def Yields {α : Type} (d : Descriptor) (a : Attachment) (t : Trouble)
    (stored now next : Aggregate T K) (s : Setting T K Database) (action : Action T K Database α)
    (result : Except Error α) : Prop :=
  Action.Ensures s action
    (fun x s' => result = .ok x ∧ Tracks d a t stored next s')
    (fun error s' => (result = .error error ∧ Tracks d a t stored next s') ∨
      FailsOffline d a t stored now error s')

/-- A call yields what the model answers wherever the collection stands for the contents of the
model. -/
def Performs (d : Descriptor) (a : Attachment) (run : Call → Action T K Database (Answer T K))
    (model : PlainModel T K Call M) (c : Call) : Prop :=
  ∀ (m : M) (t : Trouble) (stored : Aggregate T K) (s : Setting T K Database),
    Tracks d a t stored (model.contents m) s →
      Yields d a t stored (model.contents m) (model.contents (model.answer c m).2) s (run c)
        (model.answer c m).1

theorem Yields.map {α β : Type} {t : Trouble} {stored now next : Aggregate T K}
    {s : Setting T K Database} {action : Action T K Database α} {result : Except Error α}
    (h : Yields d a t stored now next s action result) (f : α → β) :
    Yields d a t stored now next s (do return f (← action)) (result.map f) := by
  have hfails : ∀ error s',
      (result = .error error ∧ Tracks d a t stored next s') ∨
          FailsOffline d a t stored now error s' →
        (result.map f = .error error ∧ Tracks d a t stored next s') ∨
          FailsOffline d a t stored now error s' := by
    intro error s' hs'
    rcases hs' with ⟨rfl, hafter⟩ | hoffline
    · exact Or.inl ⟨rfl, hafter⟩
    · exact Or.inr hoffline
  refine Action.Ensures.bind (h.failing hfails) ?_
  intro x s' hs'
  rcases hs' with ⟨rfl, hafter⟩
  exact Action.Ensures.pure ⟨rfl, hafter⟩

/-- A call performs if the action behind it has the result of the model. -/
theorem performs_of_result {α : Type} {c : Call} {action : Action T K Database α}
    {answer : α → Answer T K} {result : M → Except Error α} {next : M → M}
    (hrun : run c = do return answer (← action))
    (hmodel : ∀ m, model.answer c m = ((result m).map answer, next m))
    (haction : ∀ (m : M) (t : Trouble) (stored : Aggregate T K) (s : Setting T K Database),
      Tracks d a t stored (model.contents m) s →
        Yields d a t stored (model.contents m) (model.contents (next m)) s action (result m)) :
    Performs d a run model c := by
  intro m t stored s hs
  rw [hrun, hmodel m]
  exact (haction m t stored s hs).map answer

theorem performs_of_value {α : Type} {c : Call} {action : Action T K Database α}
    {answer : α → Answer T K} {value : M → α} {next : M → M}
    (hrun : run c = do return answer (← action))
    (hmodel : ∀ m, model.answer c m = (.ok (answer (value m)), next m))
    (haction : ∀ (m : M) (t : Trouble) (stored : Aggregate T K) (s : Setting T K Database),
      Tracks d a t stored (model.contents m) s →
        Action.Ensures s action
          (fun x s' => x = value m ∧ Tracks d a t stored (model.contents (next m)) s')
          (FailsOffline d a t stored (model.contents m))) :
    Performs d a run model c := by
  have hresult : ∀ m, model.answer c m = ((Except.ok (value m)).map answer, next m) := hmodel
  refine performs_of_result hrun hresult ?_
  intro m t stored s hs
  refine (haction m t stored s hs).mono ?_ fun _ _ h => Or.inr h
  intro x s' hs'
  rcases hs' with ⟨rfl, hafter⟩
  exact ⟨rfl, hafter⟩

theorem performs_of_done {c : Call} {action : Action T K Database Unit} {next : M → M}
    (hrun : run c = do
      action
      return .done)
    (hmodel : ∀ m, model.answer c m = (.ok .done, next m))
    (haction : ∀ (m : M) (t : Trouble) (stored : Aggregate T K) (s : Setting T K Database),
      Tracks d a t stored (model.contents m) s →
        Action.Ensures s action
          (fun _ => Tracks d a t stored (model.contents (next m)))
          (FailsOffline d a t stored (model.contents m))) :
    Performs d a run model c := by
  intro m t stored s hs
  rw [hrun, hmodel m]
  refine Action.Ensures.bind ((haction m t stored s hs).failing fun _ _ h => Or.inr h) ?_
  intro _ s' hs'
  exact Action.Ensures.pure ⟨rfl, hs'⟩

def StepEnds (d : Descriptor) (a : Attachment) (model : PlainModel T K Call M) (m : M)
    (step : Step Call) (s after : Setting T K Database) (result : Except Error (Answer T K)) :
    Prop :=
  ∃ t stored,
    ((∃ error, step.outage s.environment.source = some error ∧ result = .error error) ∧
        Tracks d a t stored (model.contents m) after) ∨
      (result = (step.onModel model m).1 ∧
        Tracks d a t stored (model.contents (step.onModel model m).2) after ∧
        (step = .flush → stored = model.contents (step.onModel model m).2))

theorem Tracks.stores {t : Trouble} {stored now : Aggregate T K} {s : Setting T K Database}
    (hs : Tracks d a t stored now s) : s.stores stored := by
  refine ⟨a, hs.attachment, ?_⟩
  rw [Collection.role, hs.descriptor]
  exact hs.holds

section StepEnds

variable {m : M} {t : Trouble} {stored : Aggregate T K} {s : Setting T K Database}
variable (hs : Tracks d a t stored (model.contents m) s)
include hs

theorem Tracks.call_ends {c : Call} (hcall : Performs d a run model c) :
    StepEnds d a model m (.call c) s ((run c).runOn s).2 ((run c).runOn s).1 := by
  refine Action.Ensures.elim (G := fun result after =>
    StepEnds d a model m (.call c) s after result) (hcall m t stored s hs) ?_ ?_
  · intro answer after h
    exact ⟨t, stored, Or.inr ⟨h.1.symm, h.2, nofun⟩⟩
  · intro error after h
    rcases h with ⟨hanswer, hafter⟩ | ⟨rfl, hoffline, hafter⟩
    · exact ⟨t, stored, Or.inr ⟨hanswer.symm, hafter, nofun⟩⟩
    · refine ⟨t, stored, Or.inl ⟨⟨_, ?_, rfl⟩, hafter⟩⟩
      rw [Step.outage, if_pos (hs.offline_eq.trans hoffline)]
      rfl

theorem Tracks.ensureInitialized_ends (hT : T.Lawful d.shape) (hK : K.Restores) :
    StepEnds d a model m .ensureInitialized s
      ((Step.perform run .ensureInitialized).runOn s).2
      ((Step.perform run .ensureInitialized).runOn s).1 := by
  have hspec := Action.Ensures.bind (hs.ensureInitialized_ensures hT hK) fun _ _ hs' =>
    Action.Ensures.pure (a := (Answer.done : Answer T K))
      (Q := fun answer s' => answer = .done ∧ Tracks d a t stored (model.contents m) s')
      ⟨rfl, hs'.toTracks⟩
  refine Action.Ensures.elim (G := fun result after =>
    StepEnds d a model m .ensureInitialized s after result) hspec ?_ ?_
  · intro answer after h
    rcases h with ⟨rfl, hafter⟩
    exact ⟨t, stored, Or.inr ⟨rfl, hafter, nofun⟩⟩
  · intro error after h
    rcases h with ⟨rfl, hoffline, hafter⟩
    refine ⟨t, stored, Or.inl ⟨⟨_, ?_, rfl⟩, hafter⟩⟩
    rw [Step.outage, if_pos (hs.offline_eq.trans hoffline)]
    rfl

theorem Tracks.flush_ends (hT : T.Lawful d.shape) (hK : K.Restores) :
    StepEnds d a model m .flush s ((Step.perform run .flush).runOn s).2
      ((Step.perform run .flush).runOn s).1 := by
  have hspec := Action.Ensures.bind (hs.flush_ensures hT hK) fun _ _ hs' =>
    Action.Ensures.pure (a := (Answer.done : Answer T K))
      (Q := fun answer s' => answer = .done ∧
        Tracks d a t (model.contents m) (model.contents m) s')
      ⟨rfl, hs'⟩
  refine Action.Ensures.elim (G := fun result after =>
    StepEnds d a model m .flush s after result) hspec ?_ ?_
  · intro answer after h
    rcases h with ⟨rfl, hafter⟩
    exact ⟨t, _, Or.inr ⟨rfl, hafter, fun _ => rfl⟩⟩
  · intro error after h
    rcases h with ⟨rfl, hrefusing, hafter⟩
    refine ⟨_, stored, Or.inl ⟨⟨_, ?_, rfl⟩, hafter⟩⟩
    rw [Step.outage, if_pos (hs.refuseNext_eq.trans hrefusing)]

theorem Tracks.step_ends (hT : T.Lawful d.shape) (hK : K.Restores)
    (hcalls : ∀ c, Performs d a run model c) (step : Step Call) :
    StepEnds d a model m step s ((step.perform run).runOn s).2
      ((step.perform run).runOn s).1 := by
  cases step with
  | call c => exact hs.call_ends (hcalls c)
  | ensureInitialized => exact hs.ensureInitialized_ends hT hK
  | flush => exact hs.flush_ends hT hK
  | setOffline offline => exact ⟨_, stored, Or.inr ⟨rfl, hs.onDatabase rfl rfl, nofun⟩⟩
  | setProbes enabled => exact ⟨_, stored, Or.inr ⟨rfl, hs.onDatabase rfl rfl, nofun⟩⟩
  | refuseNext => exact ⟨_, stored, Or.inr ⟨rfl, hs.onDatabase rfl rfl, nofun⟩⟩

end StepEnds

/-- A tracked collection follows the model through any steps whose calls do what the model does. -/
theorem Tracks.follows (hT : T.Lawful d.shape) (hK : K.Restores)
    (hcalls : ∀ c, Performs d a run model c) {m : M} {t : Trouble} {stored : Aggregate T K}
    {s : Setting T K Database} (hs : Tracks d a t stored (model.contents m) s)
    (steps : List (Step Call)) : Follows run model steps m s := by
  -- Every step may change what is stored and what can go wrong, so these vary with the setting.
  induction steps generalizing m t stored s with
  | nil => trivial
  | cons step steps ih =>
    obtain ⟨t', stored', hends⟩ := hs.step_ends hT hK hcalls step
    rcases hends with ⟨houtage, hafter⟩ | ⟨hanswer, hafter, hflush⟩
    · refine Or.inl ⟨houtage, ?_, ih hafter⟩
      exact (hafter.logicalContents_eq hT hK).trans (hs.logicalContents_eq hT hK).symm
    · refine Or.inr ⟨hanswer, hafter.logicalContents_eq hT hK, ?_, ih hafter⟩
      intro hstep
      have hstored := hafter.stores
      rwa [hflush hstep] at hstored

end Runs

end LazyCollections
