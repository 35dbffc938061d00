import LazyCollections.Proofs.Collection.Initializing
import LazyCollections.Proofs.Collection.Loaded
import LazyCollections.Proofs.Collection.Sound
import LazyCollections.Proofs.Session.Standing

/-!
# Calls that fail

A call writes and queues only after everything that can fail, so one that fails has done no more
than probe and load. A collection that was loaded is then as it was. One that was not has kept its
queue, or it has been loaded completely. Either way it ends, when it is initialized later, as if the
call had not been made.
-/

namespace LazyCollections

set_option autoImplicit false

variable {T : ElementType} {K : Scalar} {σ : Type} {shape : Shape}

inductive Setting.Consults (s : Setting T K σ) : Setting T K σ → Prop
  | start : s.Consults s
  | fastSize {s' : Setting T K σ} (h : s.Consults s') : s.Consults (Action.fastSize.runOn s').2
  | probeMembership {s' : Setting T K σ} (h : s.Consults s') (e : T.Element) :
    s.Consults ((Action.probeMembership e).runOn s').2
  | probeKey {s' : Setting T K σ} (h : s.Consults s') (k : K.Carrier) :
    s.Consults ((Action.probeKey k).runOn s').2
  | load {s' : Setting T K σ} (h : s.Consults s') :
    s.Consults (Action.ensureInitialized.runOn s').2

namespace Setting.Consults

open LazyCollections.Action

variable (s₀ : Setting T K σ)

theorem upholds : Upholds s₀.Consults (fun _ => True) fun _ => s₀.Consults where
  settle _ := trivial
  of_loaded h := h
  load h := Ensures.loadedContents (Ensures.of_after h.load)
  put _ _ _ := Ensures.putContents fun _ _ => trivial
  fastSize _ h := Ensures.of_after h.fastSize
  queueClear _ _ := Ensures.enqueue fun _ _ => trivial

theorem enqueue_ensures {s : Setting T K σ} (op : QueuedOp T.Element K.Carrier) :
    Ensures s (Action.enqueue op) (fun _ _ => True) fun _ => s₀.Consults :=
  Ensures.enqueue fun _ _ => trivial

theorem upholdsList : UpholdsList s₀.Consults (fun _ => True) fun _ => s₀.Consults where
  toUpholds := upholds s₀
  queueAdd _ _ _ := enqueue_ensures s₀ _
  probe e h _ := (Ensures.of_after (h.probeMembership e)).post
    fun _ _ hafter => ⟨hafter, fun _ => enqueue_ensures s₀ _⟩

theorem upholdsSet : UpholdsSet s₀.Consults (fun _ => True) fun _ => s₀.Consults where
  toUpholds := upholds s₀
  probe e h _ := (Ensures.of_after (h.probeMembership e)).post
    fun _ _ hafter => ⟨hafter, fun _ => enqueue_ensures s₀ _, fun _ => enqueue_ensures s₀ _⟩

theorem upholdsMap : UpholdsMap s₀.Consults (fun _ => True) fun _ => s₀.Consults where
  toUpholds := upholds s₀
  probe k h _ := (Ensures.of_after (h.probeKey k)).post
    fun _ _ hafter => ⟨hafter, fun _ _ => enqueue_ensures s₀ _,
      fun _ _ => ⟨enqueue_ensures s₀ _, fun _ => enqueue_ensures s₀ _⟩⟩

theorem keeps_disassemble : Keeps s₀.Consults disassemble := by
  have hloads : Keeps s₀.Consults ensureInitialized := fun _ h => Ensures.of_after h.load
  refine hloads.bind fun _ after hafter => ?_
  apply Ensures.collection_bind
  exact Keeps.ofExcept _ after hafter

end Setting.Consults

inductive Attempt (T : ElementType) (K : Scalar) (shape : Shape) where
  | call (call : ShapedCall T K shape)
  | ensureInitialized
  | assemble (entry : CacheEntry)
  | disassemble
  | bind (session : SessionId) (slot : Nat)

namespace Attempt

open LazyCollections.Action

def run : Attempt T K shape → Action T K σ Unit
  | call c => do let _ ← c.run
  | ensureInitialized => Action.ensureInitialized
  | assemble entry => Action.assemble entry
  | disassemble => do let _ ← Action.disassemble
  | bind session slot => Action.bind session slot

def isExtend : Attempt T K shape → Bool
  | call c => c.isExtend
  | ensureInitialized | assemble _ | disassemble | bind _ _ => false

/-- An attempt that fails has only probed and loaded. -/
theorem consults_of_error (attempt : Attempt T K shape) (hextend : attempt.isExtend = false)
    {s s' : Setting T K σ} {error : Error} (hrun : attempt.run.runOn s = (.error error, s')) :
    s.Consults s' := by
  have hensures : Ensures s attempt.run (fun _ _ => True) fun _ => s.Consults := by
    cases attempt with
    | call c =>
      have hcall := c.leads (Setting.Consults.upholdsList s) (Setting.Consults.upholdsSet s)
        (Setting.Consults.upholdsMap s) fun happends => nomatch hextend.symm.trans happends
      exact (hcall.map fun _ => ()) s .start
    | ensureInitialized => exact (Ensures.of_after (.load .start)).post fun _ _ _ => trivial
    | assemble entry =>
      refine (assemble_effect entry).mono (fun _ _ _ => trivial) ?_
      rintro _ _ rfl
      exact .start
    | disassemble =>
      have hentry := Setting.Consults.keeps_disassemble s s .start
      exact hentry.bind fun _ _ _ => Ensures.pure trivial
    | bind session slot =>
      refine (bind_effect session slot).mono (fun _ _ _ => trivial) ?_
      rintro _ _ ⟨rfl, -⟩
      exact .start
  rw [Ensures, hrun] at hensures
  exact hensures

end Attempt

theorem Collection.isLive_eq_false_of_session {c : Collection T K} {env : Environment σ}
    {error : Error} (h : c.session env = .error error) : c.isLive env = false := by
  rw [Bool.eq_false_iff]
  intro hlive
  obtain ⟨a, hattachment, hlive⟩ := (Option.any_eq_true _ _).mp hlive
  obtain ⟨session, hfound, hactive⟩ := (Option.any_eq_true _ _).mp hlive
  rw [session_eq hattachment hfound (of_decide_eq_true hactive)] at h
  cases h

/-- The contents were loaded, and the queue of the collection was carried out on them. -/
def Setting.HasLoaded (s : Setting T K σ) (a : Aggregate T K) (c : Collection T K) : Prop :=
  ∃ s', s.Consults s' ∧ s'.Loads a ∧ s.collection.replayOnto a = .ok c

/-- What probing and loading leave of a collection that is not loaded. -/
inductive Setting.Spares (s : Setting T K σ) : Collection T K → Prop
  | unloaded (size : Option Nat) : s.Spares { s.collection with cachedSize := size }
  | lost (size : Option Nat) (stage : s.collection.stage = .uninitialized)
    (lost : s.collection.isLive s.environment = false) :
    s.Spares { s.collection with stage := .unbound, cachedSize := size }
  | loaded {a : Aggregate T K} {c : Collection T K} (stage : s.collection.stage = .uninitialized)
    (loaded : s.HasLoaded a c) : s.Spares c

namespace Setting

variable {s s' : Setting T K σ} {c : Collection T K}

theorem ProbeChange.eq_of_loaded (h : s.ProbeChange c) (hloaded : s.collection.isLoaded = true) :
    c = s.collection := by
  have hstage := IsLoaded.stage_ne hloaded
  cases h with
  | same => rfl
  | noteSize size hunloaded => exact absurd hunloaded hstage
  | loseSession => exact if_neg hstage

theorem HasLoaded.isLoaded {a : Aggregate T K} (h : s.HasLoaded a c) : c.isLoaded = true := by
  obtain ⟨_, -, -, hreplay⟩ := h
  exact Collection.isLoaded_of_replayOnto hreplay

/-- A collection that is not loaded and has not lost its session differs by a noted size. -/
theorem Spares.of_uninitialized (h : s.Spares c) (hstage : c.stage = .uninitialized) :
    s.collection.stage = .uninitialized ∧ ∃ size, c = { s.collection with cachedSize := size } := by
  cases h with
  | unloaded size => exact ⟨hstage, size, rfl⟩
  | lost => cases hstage
  | loaded _ hloaded =>
    have hunloaded := hloaded.isLoaded
    rw [Collection.isLoaded, hstage] at hunloaded
    cases hunloaded

theorem Spares.probed (h : s.Spares s'.collection)
    (hsame : s.environment.SameSessions s'.environment) (hstep : s'.ProbeChange c) :
    s.Spares c := by
  cases hstep with
  | same => exact h
  | noteSize size hstage =>
    obtain ⟨-, _, hc⟩ := h.of_uninitialized hstage
    rw [hc]
    exact .unloaded size
  | loseSession hlost =>
    by_cases hstage : s'.collection.stage = .uninitialized
    · obtain ⟨hunloaded, size, hc⟩ := h.of_uninitialized hstage
      have hlive := Collection.isLive_eq_false_of_session hlost
      rw [Collection.isLive, hc, funext hsame.isLive_eq] at hlive
      rw [Collection.loseSession, if_pos hstage, hc]
      exact .lost size hunloaded hlive
    · rw [Collection.loseSession, if_neg hstage]
      exact h

theorem Spares.initialized (h : s.Spares s'.collection) (hconsults : s.Consults s')
    {a : Aggregate T K} (hstage : s'.collection.stage = .uninitialized) (hloads : s'.Loads a)
    (hreplay : s'.collection.replayOnto a = .ok c) : s.Spares c := by
  obtain ⟨hunloaded, size, hc⟩ := h.of_uninitialized hstage
  rw [hc] at hreplay
  exact .loaded hunloaded ⟨s', hconsults, hloads, hreplay⟩

namespace Consults

theorem standing (h : s.Consults s') : s.Standing s' := by
  induction h with
  | start => exact .refl s
  | fastSize _ ih => exact (Standing.keeps_fastSize s).after ih
  | probeMembership _ e ih => exact (Standing.keeps_probeMembership s e).after ih
  | probeKey _ k ih => exact (Standing.keeps_probeKey s k).after ih
  | load _ ih => exact (Standing.keeps_ensureInitialized s).after ih

theorem eq_of_loaded (h : s.Consults s') (hloaded : s.collection.isLoaded = true) :
    s'.collection = s.collection := by
  have hprobed {s₁ : Setting T K σ} {c : Collection T K} (ih : s₁.collection = s.collection)
      (hstep : s₁.ProbeChange c) : c = s.collection :=
    (hstep.eq_of_loaded (ih ▸ hloaded)).trans ih
  induction h with
  | start => rfl
  | fastSize _ ih => exact hprobed ih Action.onlyProbes_fastSize.change
  | probeMembership _ e ih => exact hprobed ih (Action.onlyProbes_probeMembership e).change
  | probeKey _ k ih => exact hprobed ih (Action.onlyProbes_probeKey k).change
  | @load s₁ _ ih =>
    have heffect : Action.Ensures s₁ Action.ensureInitialized
        (fun _ s' => s'.collection = s.collection) fun _ s' => s'.collection = s.collection := by
      refine Action.ensureInitialized_effect.mono ?_ fun _ _ => hprobed ih
      rintro _ _ (⟨-, rfl⟩ | ⟨hstage, -⟩)
      · exact ih
      · rw [ih] at hstage
        exact absurd hstage (IsLoaded.stage_ne hloaded)
    exact heffect.after

theorem spares (h : s.Consults s') : s.Spares s'.collection := by
  induction h with
  | start => exact .unloaded s.collection.cachedSize
  | fastSize h ih => exact ih.probed h.standing.sessions Action.onlyProbes_fastSize.change
  | probeMembership h e ih =>
    exact ih.probed h.standing.sessions (Action.onlyProbes_probeMembership e).change
  | probeKey h k ih => exact ih.probed h.standing.sessions (Action.onlyProbes_probeKey k).change
  | @load s₁ h ih =>
    have heffect : Action.Ensures s₁ Action.ensureInitialized (fun _ s' => s.Spares s'.collection)
        fun _ s' => s.Spares s'.collection := by
      refine Action.ensureInitialized_effect.mono ?_ fun _ _ => ih.probed h.standing.sessions
      rintro _ _ (⟨-, rfl⟩ | ⟨hstage, a, hloads, hreplay⟩)
      · exact ih
      · exact ih.initialized h hstage hloads hreplay
    exact heffect.after

end Consults

end Setting

/-- The collection as it is, or bound again. -/
def Collection.rebound (c : Collection T K) : Option Attachment → Collection T K
  | none => c
  | some a => c.findSession a

theorem Collection.isLoaded_rebound (c : Collection T K) (x : Option Attachment) :
    (c.rebound x).isLoaded = c.isLoaded := by
  cases x with
  | none => rfl
  | some a => exact c.isLoaded_findSession a

theorem Collection.replayOnto_rebound {c c' : Collection T K} {a : Aggregate T K}
    (h : c.replayOnto a = .ok c') (x : Option Attachment) :
    (c.rebound x).replayOnto a = .ok (c'.rebound x) := by
  cases x with
  | none => exact h
  | some b =>
    obtain ⟨contents, hcontents, hc⟩ := bind_eq_ok.mp h
    cases hc
    refine bind_eq_ok.mpr ⟨contents, hcontents, ?_⟩
    rw [rebound, rebound, findSession, findSession]
    cases c.readOnly <;> rfl

/-- Once `c` is initialized, bound again or not, it is what the collection of the setting would be
if it were initialized with the same contents. -/
def Setting.InitializesAs (s : Setting T K σ) (c : Collection T K) : Prop :=
  ∀ (x : Option Attachment) (env : Environment σ) (later : Setting T K σ),
    Action.ensureInitialized.runOn ⟨c.rebound x, env⟩ = (.ok (), later) →
      ∃ a, (Setting.Loads ⟨c.rebound x, env⟩ a ∨ s.HasLoaded a c) ∧
        (s.collection.rebound x).replayOnto a = .ok later.collection ∧
        ∀ other : Environment σ, Setting.Loads ⟨s.collection.rebound x, other⟩ a →
          ∃ last, Action.ensureInitialized.runOn ⟨s.collection.rebound x, other⟩ =
            (.ok (), ⟨later.collection, last⟩)

namespace Setting

variable {s later : Setting T K σ} {c c' : Collection T K} {a : Aggregate T K}
variable {env : Environment σ}

theorem initialized_of_loads (hstage : c.stage = .uninitialized)
    (hreplay : c.replayOnto a = .ok c') (hloads : Setting.Loads ⟨c, env⟩ a) :
    ∃ last, Action.ensureInitialized.runOn ⟨c, env⟩ = (.ok (), ⟨c', last⟩) := by
  have hinitializes := Collection.initializesWith_of_loads hstage hloads
  rw [Collection.replayOnto_eq] at hreplay
  rw [Collection.InitializesWith] at hinitializes
  cases hqueue : replay c.queue a with
  | error error =>
    rw [hqueue] at hreplay
    cases hreplay
  | ok contents =>
    rw [hqueue] at hreplay hinitializes
    cases hreplay
    exact ⟨_, Prod.ext hinitializes.1 (congrArg (Setting.mk · _) hinitializes.2)⟩

/-- Initializing what was left carries the queue out on what is loaded then or was loaded before. -/
theorem Spares.exists_replay (h : s.Spares c) (hunloaded : s.collection.isLoaded = false)
    {x : Option Attachment}
    (hrun : Action.ensureInitialized.runOn ⟨c.rebound x, env⟩ = (.ok (), later)) :
    (s.collection.rebound x).stage = .uninitialized ∧
      ∃ a, (Setting.Loads ⟨c.rebound x, env⟩ a ∨ s.HasLoaded a c) ∧
        (s.collection.rebound x).replayOnto a = .ok later.collection := by
  have heffect := Action.ensureInitialized_effect (s := ⟨c.rebound x, env⟩)
  rw [Action.Ensures, hrun] at heffect
  simp only at heffect
  rw [c.isLoaded_rebound] at heffect
  cases h with
  | unloaded size =>
    rcases heffect with ⟨hloaded, -⟩ | ⟨hstage, a, hloads, hreplay⟩
    · cases hunloaded.symm.trans hloaded
    · cases x with
      | none => exact ⟨hstage, a, .inl hloads, hreplay⟩
      | some b => exact ⟨hstage, a, .inl hloads, hreplay⟩
  | lost size hstage =>
    rcases heffect with ⟨hloaded, -⟩ | ⟨hfound, a, hloads, hreplay⟩
    · cases hloaded
    · cases x with
      -- Without being bound again it has no session to be initialized in.
      | none => cases hfound
      | some b =>
        refine ⟨?_, a, .inl hloads, hreplay⟩
        rw [Collection.rebound, Collection.findSession, hstage]
        rfl
  | @loaded a _ hstage hloaded =>
    have hready : (s.collection.rebound x).stage = .uninitialized := by
      cases x with
      | none => exact hstage
      | some b =>
        rw [Collection.rebound, Collection.findSession, hstage]
        rfl
    rcases heffect with ⟨-, rfl⟩ | ⟨hfound, -⟩
    · obtain ⟨_, -, -, hreplay⟩ := id hloaded
      exact ⟨hready, a, .inr hloaded, Collection.replayOnto_rebound hreplay x⟩
    · have hunloaded := Action.isLoaded_eq_false (s := ⟨c.rebound x, env⟩) hfound
      rw [c.isLoaded_rebound] at hunloaded
      cases hunloaded.symm.trans hloaded.isLoaded

theorem Spares.initializesAs (h : s.Spares c) (hunloaded : s.collection.isLoaded = false) :
    s.InitializesAs c := by
  intro x env later hrun
  obtain ⟨hstage, a, hloads, hreplay⟩ := h.exists_replay hunloaded hrun
  exact ⟨a, hloads, hreplay, fun _ => initialized_of_loads hstage hreplay⟩

/-- The collection is still not loaded. It has its queue and nothing else, and it is unbound only if
it was, or if there is no session to act in. -/
structure StaysUnloaded (s : Setting T K σ) (c : Collection T K) : Prop where
  kept : c = { s.collection with stage := c.stage, cachedSize := c.cachedSize }
  queue : c.queue = s.collection.queue
  contents : c.contents = .empty s.collection.descriptor.shape
  snapshot : c.snapshot = none
  dirty : c.dirty = false
  stage : c.stage = .uninitialized ∨ c.stage = .unbound ∧
    (s.collection.stage = .unbound ∨ s.collection.isLive s.environment = false)

theorem Spares.staysUnloaded_or_hasLoaded (h : s.Spares c) (hsound : s.collection.Sound)
    (hunloaded : s.collection.isLoaded = false) : s.StaysUnloaded c ∨ ∃ a, s.HasLoaded a c := by
  obtain ⟨hcontents, hsnapshot, hdirty⟩ := hsound.unloaded hunloaded
  cases h with
  | unloaded size =>
    refine .inl ⟨rfl, rfl, hcontents, hsnapshot, hdirty, ?_⟩
    simp only
    cases hstage : s.collection.stage with
    | unbound => exact .inr ⟨rfl, .inl rfl⟩
    | uninitialized => exact .inl rfl
    | initializing => exact absurd hstage hsound.stage_ne
    | initialized | readOnlyInitialized =>
      rw [Collection.isLoaded, hstage] at hunloaded
      cases hunloaded
  | lost size hstage hlost =>
    exact .inl ⟨rfl, rfl, hcontents, hsnapshot, hdirty, .inr ⟨rfl, .inr hlost⟩⟩
  | loaded _ hloaded => exact .inr ⟨_, hloaded⟩

/-- An attempt that fails, after whatever was done with a collection before, leaves a loaded
collection as it was. One that was not loaded has kept its queue or has been loaded completely, and
initializing it later gives what it would have given otherwise. -/
theorem Made.failure_spares {s₀ : Setting T K σ} {b : Option (Aggregate T K)} (h : s₀.Made b)
    (moves : List (Move T K σ s₀.collection.descriptor.shape))
    (attempt : Attempt T K s₀.collection.descriptor.shape) (hextend : attempt.isExtend = false)
    {error : Error} {s' : Setting T K σ}
    (hrun : attempt.run.runOn (Move.runAll moves s₀) = (.error error, s')) :
    let s := Move.runAll moves s₀
    (s.collection.isLoaded = true → s'.collection = s.collection) ∧
      (s.collection.isLoaded = false →
        (s.StaysUnloaded s'.collection ∨ ∃ a, s.HasLoaded a s'.collection) ∧
          s.InitializesAs s'.collection) := by
  intro s
  have hconsults : s.Consults s' := attempt.consults_of_error hextend hrun
  obtain ⟨_, -, hsound⟩ :=
    (Collection.Sound.invariant s₀.collection.descriptor).runAll (b := b) moves ⟨rfl, h.sound⟩
  refine ⟨hconsults.eq_of_loaded, fun hunloaded => ?_⟩
  exact ⟨hconsults.spares.staysUnloaded_or_hasLoaded hsound hunloaded,
    hconsults.spares.initializesAs hunloaded⟩

end Setting

def Attempt.lateNote : Attempt (.ofScalar .text) .unkeyed .sequence :=
  .call (.ofList (.insert 9 "late"))

/-- The list is loaded, with the queued note, before the index turns out to be too large. -/
theorem Setting.failure_spares_notes :
    (Setting.handed ["fragile"]).Made none ∧ Attempt.lateNote.isExtend = false ∧
      ∃ s s', s = Move.runAll [.call (.ofList (.push "urgent"))] (Setting.handed ["fragile"]) ∧
        Attempt.lateNote.run.runOn s = (.error (.bounds 9 2), s') ∧
        s.collection.isLoaded = false ∧ (∃ a, s.HasLoaded a s'.collection) ∧
        s.InitializesAs s'.collection ∧
        s'.collection.contents = .sequence [some "fragile", some "urgent"] := by
  have hrun : Attempt.lateNote.run.runOn
      (Move.runAll [.call (.ofList (.push "urgent"))] (Setting.handed ["fragile"])) =
        (.error (.bounds 9 2), _) := rfl
  obtain ⟨-, hunloaded⟩ := (made_handed ["fragile"]).failure_spares
    [.call (.ofList (.push "urgent"))] .lateNote rfl hrun
  obtain ⟨hleft, hinitializes⟩ := hunloaded rfl
  refine ⟨made_handed _, rfl, _, _, rfl, hrun, rfl, ?_, hinitializes, rfl⟩
  rcases hleft with hstays | hloaded
  · exact nomatch hstays.contents
  · exact hloaded

end LazyCollections
