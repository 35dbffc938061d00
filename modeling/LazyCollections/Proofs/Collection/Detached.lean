import LazyCollections.Proofs.Collection.Moves

/-!
# Collections outside a session

A collection that was not loaded before its session was closed, or before it was detached, has
nothing to act on. Every call then fails and leaves it unbound, with its queue, and no loader is
asked. The exception is a question of membership that the queue decides: it is answered without a
look at the session, as long as the collection does not know that it has lost it.
-/

namespace LazyCollections

set_option autoImplicit false

variable {T : ElementType} {K : Scalar} {σ α β : Type} {shape : Shape}

/-- The collection is not loaded, is open to changes and has no session to act in: its session is
closed or has ended, or it was detached from it. -/
structure Setting.Detached (s : Setting T K σ) : Prop where
  unloaded : s.collection.isLoaded = false
  ready : s.collection.stage ≠ .initializing
  writable : s.collection.readOnly = false
  lost : s.collection.isLive s.environment = false

def Setting.unbound (s : Setting T K σ) : Setting T K σ :=
  { s with collection := { s.collection with stage := .unbound } }

/-- What is left of membership if it is to be answered with yes or no. -/
def Membership.decided? : Membership → Option Bool
  | present => some true
  | absent => some false
  | unknown => none

/-- The answer that the queue gives to a question of membership, while the collection counts as
attached. -/
def Collection.queuedAnswer? (c : Collection T K) : ShapedCall T K shape → Option Bool
  | .ofList (.contains e) | .ofSet (.contains e) =>
    if c.stage = .uninitialized then
      (queuedMembership c.descriptor.shape c.queue e).bind Membership.decided?
    else none
  | .ofMap (.containsKey k) =>
    if c.stage = .uninitialized then (queuedEntry c.queue k).map Option.isSome else none
  | _ => none

def ShapedCall.isIdle : ShapedCall T K shape → Bool
  | .ofList (.extend []) => true
  | _ => false

theorem Collection.exists_session_eq_error {c : Collection T K} {env : Environment σ}
    (h : c.isLive env = false) : ∃ cause, c.session env = .error (.lifecycle cause) := by
  cases hsession : c.session env with
  | error error =>
    obtain ⟨cause, rfl⟩ := session_eq_error hsession
    exact ⟨cause, rfl⟩
  | ok found =>
    obtain ⟨hattachment, hfound, hactive⟩ := session_eq_ok hsession
    rw [isLive, hattachment, Option.any_some, Environment.isLive, hfound, Option.any_some,
      Session.isActive, hactive] at h
    cases h

theorem Collection.mayQueue_eq_false {c : Collection T K} {env : Environment σ}
    (h : c.isLive env = false) : c.mayQueue env = false := by
  have hpermits : c.attachment.any env.permitsQueue = false := by
    cases hattachment : c.attachment with
    | none => rfl
    | some a =>
      rw [isLive, hattachment, Option.any_some, Environment.isLive] at h
      rw [Option.any_some, Environment.permitsQueue]
      cases hfound : env.session? a.session with
      | none => rfl
      | some session =>
        rw [hfound, Option.any_some] at h
        rw [Option.any_some, h, Bool.false_and]
  rw [mayQueue, hpermits, Bool.and_false]

theorem Setting.Detached.stage_eq {s : Setting T K σ} (h : s.Detached) :
    s.collection.stage = .unbound ∨ s.collection.stage = .uninitialized := by
  have hunloaded := h.unloaded
  rw [Collection.isLoaded] at hunloaded
  cases hstage : s.collection.stage with
  | unbound => exact .inl rfl
  | uninitialized => exact .inr rfl
  | initializing => exact absurd hstage h.ready
  | initialized | readOnlyInitialized =>
    rw [hstage] at hunloaded
    cases hunloaded

namespace Action

def FailsUnbound (s : Setting T K σ) (action : Action T K σ α) : Prop :=
  ∃ cause, action.runOn s = (.error (.lifecycle cause), s.unbound)

namespace FailsUnbound

variable {s : Setting T K σ} {action : Action T K σ α}

theorem bind (h : FailsUnbound s action) (next : α → Action T K σ β) :
    FailsUnbound s (action >>= next) := by
  obtain ⟨cause, hrun⟩ := h
  exact ⟨cause, by rw [runOn_bind, hrun]⟩

theorem of_after {a : α} {next : α → Action T K σ β} (hrun : action.runOn s = (.ok a, s))
    (h : FailsUnbound s (next a)) : FailsUnbound s (action >>= next) := by
  rwa [FailsUnbound, runOn_bind, hrun]

variable (hs : s.Detached)
include hs

theorem activeSession (hstage : s.collection.stage = .uninitialized) :
    FailsUnbound s (activeSession : Action T K σ (Session σ × Attachment)) := by
  obtain ⟨cause, hsession⟩ := Collection.exists_session_eq_error hs.lost
  refine ⟨cause, ?_⟩
  rw [runOn_activeSession_lost hsession, Collection.loseSession, if_pos hstage]
  rfl

theorem ensureInitialized : FailsUnbound s (ensureInitialized : Action T K σ Unit) := by
  apply of_after (runOn_collection s)
  rcases hs.stage_eq with hstage | hstage
  · have hsame : s.unbound = s := by rw [Setting.unbound, ← hstage]
    rw [hstage]
    exact ⟨_, by rw [hsame]; rfl⟩
  · rw [hstage]
    exact (activeSession hs hstage).bind _

theorem loadedContents : FailsUnbound s (loadedContents : Action T K σ (Aggregate T K)) :=
  (ensureInitialized hs).bind _

theorem writableContents : FailsUnbound s (writableContents : Action T K σ (Aggregate T K)) := by
  apply of_after (runOn_collection s)
  refine of_after (a := ()) ?_ (loadedContents hs)
  rw [runOn_ofExcept, Collection.checkWritable, hs.writable]
  rfl

theorem size : FailsUnbound s (size : Action T K σ Nat) := by
  by_cases hknown : (s.collection.stage = .uninitialized && s.collection.queue.isEmpty) = true
  · have hstage : s.collection.stage = .uninitialized :=
      of_decide_eq_true (Bool.and_eq_true_iff.mp hknown).1
    have hfast : FailsUnbound s (fastSize : Action T K σ (Option Nat)) := by
      apply of_after (runOn_collection s)
      rw [if_pos hknown]
      exact (activeSession hs hstage).bind _
    exact hfast.bind _
  · have hfast : (fastSize : Action T K σ (Option Nat)).runOn s = (.ok none, s) := by
      rw [fastSize, runOn_bind, runOn_collection]
      simp only [hknown]
      rfl
    exact of_after hfast ((loadedContents hs).bind _)

/-- Without a session nothing is queued, so that a change needs loaded contents. -/
theorem change {queued loaded : Action T K σ α} (hloaded : FailsUnbound s loaded) :
    FailsUnbound s (do
      (← collection).checkWritable
      if ← mayQueue then queued else loaded) := by
  have hwritable : (liftM s.collection.checkWritable : Action T K σ Unit).runOn s = (.ok (), s) := by
    rw [runOn_ofExcept, Collection.checkWritable, hs.writable]
    rfl
  have hqueues : (mayQueue : Action T K σ Bool).runOn s = (.ok false, s) := by
    simp only [mayQueue, runOn_bind, runOn_collection, runOn_environment,
      Collection.mayQueue_eq_false hs.lost, runOn_pure]
  apply of_after (runOn_collection s)
  apply of_after hwritable
  exact of_after hqueues hloaded

theorem slots : FailsUnbound s (LazyList.slots : Action T K σ (List (Option T.Element))) :=
  (loadedContents hs).bind _

theorem writableSlots :
    FailsUnbound s (LazyList.writableSlots : Action T K σ (List (Option T.Element))) :=
  (writableContents hs).bind _

theorem push (e : T.Element) : FailsUnbound s (LazyList.push e : Action T K σ Unit) :=
  change hs ((writableSlots hs).bind _)

theorem setItems : FailsUnbound s (LazySet.items : Action T K σ (SortedMap T.Id T.Element)) :=
  (loadedContents hs).bind _

theorem writableSetItems :
    FailsUnbound s (LazySet.writableItems : Action T K σ (SortedMap T.Id T.Element)) :=
  (writableContents hs).bind _

theorem mapItems :
    FailsUnbound s (LazyMap.items : Action T K σ (SortedMap K.Carrier T.Element)) :=
  (loadedContents hs).bind _

theorem writableMapItems :
    FailsUnbound s (LazyMap.writableItems : Action T K σ (SortedMap K.Carrier T.Element)) :=
  (writableContents hs).bind _

end FailsUnbound

/-- What is known already is the answer. Where nothing is known the action fails for want of a
session. -/
def AnswersOrFails (s : Setting T K σ) (known : Option α) (action : Action T K σ α) : Prop :=
  match known with
  | some a => action.runOn s = (.ok a, s)
  | none => FailsUnbound s action

/-- A probe gives what is known already, or needs a session for more. -/
def GivesKnown (s : Setting T K σ) (known : Option α) (probe : Action T K σ (Option α)) : Prop :=
  probe.runOn s = (.ok known, s) ∨ known = none ∧ FailsUnbound s probe

section Questions

variable {s : Setting T K σ}

theorem GivesKnown.bind {known : Option α} {probe : Action T K σ (Option α)}
    {next : Option α → Action T K σ β} (f : α → β) (h : GivesKnown s known probe)
    (hknown : ∀ a, (next (some a)).runOn s = (.ok (f a), s))
    (hunknown : FailsUnbound s (next none)) :
    AnswersOrFails s (known.map f) (probe >>= next) := by
  rcases h with hrun | ⟨rfl, hfails⟩
  · cases known with
    | none => exact .of_after hrun hunknown
    | some a =>
      change (probe >>= next).runOn s = (.ok (f a), s)
      rw [runOn_bind, hrun]
      exact hknown a
  · exact hfails.bind next

theorem AnswersOrFails.map {known : Option α} {action : Action T K σ α} (f : α → β)
    (h : AnswersOrFails s known action) :
    AnswersOrFails s (known.map f) (do return f (← action)) := by
  cases known with
  | none => exact FailsUnbound.bind h _
  | some a =>
    change action.runOn s = (.ok a, s) at h
    change (action >>= fun a => pure (f a)).runOn s = (.ok (f a), s)
    rw [runOn_bind, h]
    rfl

theorem givesKnown_collection {known : Option α} {next : Collection T K → Action T K σ (Option α)}
    (h : GivesKnown s known (next s.collection)) : GivesKnown s known (collection >>= next) := by
  refine h.imp (fun hrun => ?_) (And.imp_right (FailsUnbound.of_after (runOn_collection s)))
  rw [runOn_bind, runOn_collection]
  exact hrun

theorem answersOrFails_collection {known : Option α} {next : Collection T K → Action T K σ α}
    (h : AnswersOrFails s known (next s.collection)) :
    AnswersOrFails s known (collection >>= next) := by
  cases known with
  | none => exact .of_after (runOn_collection s) h
  | some a =>
    change (collection >>= next).runOn s = (.ok a, s)
    rw [runOn_bind, runOn_collection]
    exact h

variable (hs : s.Detached)
include hs

theorem givesKnown_probeMembership (hstage : s.collection.stage = .uninitialized)
    (e : T.Element) :
    GivesKnown s ((queuedMembership s.collection.descriptor.shape s.collection.queue e).bind
      Membership.decided?) (probeMembership e : Action T K σ (Option Bool)) := by
  apply givesKnown_collection
  cases hqueued : queuedMembership s.collection.descriptor.shape s.collection.queue e with
  | some membership => cases membership <;> exact .inl rfl
  | none =>
    simp only
    split
    next => exact .inr ⟨rfl, (FailsUnbound.activeSession hs hstage).bind _⟩
    next => exact .inl rfl

theorem givesKnown_probeKey (hstage : s.collection.stage = .uninitialized) (k : K.Carrier) :
    GivesKnown s (queuedEntry s.collection.queue k)
      (probeKey k : Action T K σ (Option (Option T.Element))) := by
  apply givesKnown_collection
  cases hqueued : queuedEntry s.collection.queue k with
  | some entry => exact .inl rfl
  | none =>
    simp only
    split
    next => exact .inr ⟨rfl, (FailsUnbound.activeSession hs hstage).bind _⟩
    next => exact .inl rfl

/-- Lists and sets ask for an element in the same way, and load in different ones. -/
theorem answersOrFails_contains (e : T.Element) {loaded : Action T K σ Bool}
    (hloaded : FailsUnbound s loaded) :
    AnswersOrFails s
      (if s.collection.stage = .uninitialized then
        (queuedMembership s.collection.descriptor.shape s.collection.queue e).bind
          Membership.decided?
      else none)
      (do
        if (← collection).stage = .uninitialized then
          if let some found ← probeMembership e then return found
        loaded) := by
  apply answersOrFails_collection
  split
  next hstage =>
    rw [← @Option.map_id_apply _ (Option.bind _ _)]
    exact (givesKnown_probeMembership hs hstage e).bind id (fun _ => rfl) hloaded
  next => exact hloaded

theorem answersOrFails_containsKey (k : K.Carrier) :
    AnswersOrFails s (s.collection.queuedAnswer? (.ofMap (.containsKey k)))
      (LazyMap.containsKey k : Action T K σ Bool) := by
  have hloaded : FailsUnbound s (do return (← LazyMap.items).contains k : Action T K σ Bool) :=
    (FailsUnbound.mapItems hs).bind _
  rw [Collection.queuedAnswer?]
  apply answersOrFails_collection
  split
  next hstage => exact (givesKnown_probeKey hs hstage k).bind _ (fun _ => rfl) hloaded
  next => exact hloaded

theorem answersOrFails_listCall (call : ListCall T) (hcall : call ≠ .extend []) :
    AnswersOrFails s ((s.collection.queuedAnswer? (.ofList call)).map Answer.flag)
      (call.run : Action T K σ (Answer T K)) := by
  have hslots := FailsUnbound.slots hs
  have hwritable := FailsUnbound.writableSlots hs
  have hsize := FailsUnbound.size hs
  cases call with
  | size => exact hsize.bind _
  | isEmpty => exact (hsize.bind _).bind _
  | get i => exact (hslots.bind _).bind _
  | contains e => exact (answersOrFails_contains hs e ((hslots.bind _).bind _)).map _
  | indexOf e => exact (hslots.bind _).bind _
  | elements => exact (hslots.bind _).bind _
  | slots => exact hslots.bind _
  | push e => exact (FailsUnbound.push hs e).bind _
  | extend es =>
    cases es with
    | nil => exact absurd rfl hcall
    | cons e es => exact ((FailsUnbound.push hs e).bind _).bind _
  | insert i e => exact (hwritable.bind _).bind _
  | set i e => exact (hwritable.bind _).bind _
  | setNull i => exact (hwritable.bind _).bind _
  | removeAt i => exact (hwritable.bind _).bind _
  | remove e => exact (FailsUnbound.change hs (hwritable.bind _)).bind _
  | clear => exact (FailsUnbound.change hs (hwritable.bind _)).bind _
  | retain keep => exact ((hwritable.bind _).bind _).bind _
  | removeAll es => exact (hwritable.bind _).bind _

theorem answersOrFails_setCall (call : SetCall T) :
    AnswersOrFails s ((s.collection.queuedAnswer? (.ofSet call)).map Answer.flag)
      (call.run : Action T K σ (Answer T K)) := by
  have hitems := FailsUnbound.setItems hs
  have hwritable := FailsUnbound.writableSetItems hs
  have hsize := FailsUnbound.size hs
  cases call with
  | size => exact hsize.bind _
  | isEmpty => exact (hsize.bind _).bind _
  | get id => exact (hitems.bind _).bind _
  | contains e => exact (answersOrFails_contains hs e (hitems.bind _)).map _
  | elements => exact (hitems.bind _).bind _
  | insert e => exact (FailsUnbound.change hs (hwritable.bind _)).bind _
  | remove e => exact (FailsUnbound.change hs (hwritable.bind _)).bind _
  | clear => exact (FailsUnbound.change hs (hwritable.bind _)).bind _
  | retain keep => exact (hwritable.bind _).bind _

theorem answersOrFails_mapCall (call : MapCall T K) :
    AnswersOrFails s ((s.collection.queuedAnswer? (.ofMap call)).map Answer.flag)
      (call.run : Action T K σ (Answer T K)) := by
  have hitems := FailsUnbound.mapItems hs
  have hwritable := FailsUnbound.writableMapItems hs
  have hsize := FailsUnbound.size hs
  cases call with
  | size => exact hsize.bind _
  | isEmpty => exact (hsize.bind _).bind _
  | get k => exact (hitems.bind _).bind _
  | containsKey k => exact (answersOrFails_containsKey hs k).map _
  | entries => exact (hitems.bind _).bind _
  | keys => exact (hitems.bind _).bind _
  | values => exact (hitems.bind _).bind _
  | insert k e => exact (FailsUnbound.change hs (hwritable.bind _)).bind _
  | remove k => exact (FailsUnbound.change hs (hwritable.bind _)).bind _
  | clear => exact (FailsUnbound.change hs (hwritable.bind _)).bind _

end Questions

end Action

section Calls

open LazyCollections.Action

theorem answersOrFails_call {s : Setting T K σ} (hs : s.Detached) (call : ShapedCall T K shape)
    (hcall : call.isIdle = false) :
    AnswersOrFails s ((s.collection.queuedAnswer? call).map Answer.flag) call.run := by
  cases call with
  | ofList call =>
    refine answersOrFails_listCall hs call ?_
    rintro rfl
    cases hcall
  | ofSet call => exact answersOrFails_setCall hs call
  | ofMap call => exact answersOrFails_mapCall hs call

/-- A call to a collection outside a session is answered by the queue, and then changes nothing, or
it fails and leaves the collection unbound. Either way the environment stays as it was, down to
what its loaders would notice. -/
theorem call_outside_session {s : Setting T K σ} (hs : s.Detached) (call : ShapedCall T K shape)
    (hcall : call.isIdle = false) :
    (∀ b, s.collection.queuedAnswer? call = some b →
      call.run.runOn s = (.ok (.flag b), s)) ∧
    (s.collection.queuedAnswer? call = none →
      ∃ cause, call.run.runOn s = (.error (.lifecycle cause), s.unbound)) := by
  have h := answersOrFails_call hs call hcall
  constructor
  · intro b hanswer
    rw [hanswer] at h
    exact h
  · intro hanswer
    rw [hanswer] at h
    exact h

/-- The list of one note is cleared before it is loaded, and then its session is closed. -/
def Setting.strayed : Setting (.ofScalar .text) .unkeyed Unit :=
  Move.runAll [.call (.ofList .clear), .surroundings fun env => env.closeSession ⟨0⟩]
    (.handed ["fragile"])

theorem Setting.detached_strayed : Setting.strayed.Detached where
  unloaded := rfl
  ready := nofun
  writable := rfl
  lost := rfl

theorem call_outside_session_strayed :
    Setting.strayed.Detached ∧
      ∃ cause, (ShapedCall.ofList (.push "urgent")).run.runOn Setting.strayed =
        (.error (.lifecycle cause), Setting.strayed.unbound) :=
  ⟨Setting.detached_strayed,
    (call_outside_session Setting.detached_strayed (.ofList (.push "urgent")) rfl).2 rfl⟩

/-- The cleared list answers that it lacks the note, and does not notice that its session is
closed. -/
theorem Setting.strayed_answers :
    Setting.strayed.Detached ∧
      ((ShapedCall.ofList (.contains "fragile")).run.runOn Setting.strayed).1 =
        .ok (.flag false) ∧
      ((ShapedCall.ofList (.contains "fragile")).run.runOn
        Setting.strayed).2.collection.stage = .uninitialized :=
  ⟨Setting.detached_strayed, rfl, rfl⟩

end Calls

end LazyCollections
