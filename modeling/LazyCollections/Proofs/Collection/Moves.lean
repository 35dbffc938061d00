import LazyCollections.Proofs.Collection.Effects
import LazyCollections.Proofs.Collection.Upholding

/-!
# Moves of collections

A collection is called, loaded, flushed and moved between sessions in any order, and anything may
happen around it meanwhile. Its base is what was last loaded or stored of it. A call loads it at
most once, somewhere on its course; assembling it loads it from an entry, and a flush that hands its
contents to a persister stores it. Nothing else gives it another base.
-/

namespace LazyCollections

set_option autoImplicit false

variable {T : ElementType} {K : Scalar} {σ : Type} {shape : Shape}

/-- What is done with a collection of one shape, or happens around it. -/
inductive Move (T : ElementType) (K : Scalar) (σ : Type) (shape : Shape) where
  | call (call : ShapedCall T K shape)
  | ensureInitialized
  | assemble (entry : CacheEntry)
  | disassemble
  | flush (persister : Persister T K σ)
  | bind (session : SessionId) (slot : Nat)
  | unbind
  | setReadOnly (readOnly : Bool)
  | setCachedSize (size : Nat)
  /-- Sessions are opened, closed or ended, rows and cache entries come and go. -/
  | surroundings (change : Environment σ → Environment σ)

namespace Move

def after (s : Setting T K σ) : Move T K σ shape → Setting T K σ
  | call c => (c.run.runOn s).2
  | ensureInitialized => (Action.ensureInitialized.runOn s).2
  | assemble entry => ((Action.assemble entry).runOn s).2
  | disassemble => (Action.disassemble.runOn s).2
  | flush persister => ((Action.flush persister).runOn s).2
  | bind session slot => ((Action.bind session slot).runOn s).2
  | unbind => (Action.unbind.runOn s).2
  | setReadOnly readOnly => { s with collection := s.collection.setReadOnly readOnly }
  | setCachedSize size => { s with collection := s.collection.setCachedSize size }
  | surroundings change => { s with environment := change s.environment }

def runAll (moves : List (Move T K σ shape)) (s : Setting T K σ) : Setting T K σ :=
  moves.foldl (fun s move => move.after s) s

end Move

/-- The steps that calls are made of lead from one setting with its base to another. -/
inductive Setting.Course (s₀ : Setting T K σ) (b₀ : Option (Aggregate T K)) :
    Setting T K σ → Option (Aggregate T K) → Prop
  | start : s₀.Course b₀ s₀ b₀
  | fastSize {s : Setting T K σ} {b : Option (Aggregate T K)} (h : s₀.Course b₀ s b) :
    s₀.Course b₀ (Action.fastSize.runOn s).2 b
  | probeMembership {s : Setting T K σ} {b : Option (Aggregate T K)} (h : s₀.Course b₀ s b)
    (e : T.Element) : s₀.Course b₀ ((Action.probeMembership e).runOn s).2 b
  | probeKey {s : Setting T K σ} {b : Option (Aggregate T K)} (h : s₀.Course b₀ s b)
    (k : K.Carrier) : s₀.Course b₀ ((Action.probeKey k).runOn s).2 b
  | enqueue {s : Setting T K σ} {b : Option (Aggregate T K)} (h : s₀.Course b₀ s b)
    (op : QueuedOp T.Element K.Carrier) (unloaded : s.collection.isLoaded = false) :
    s₀.Course b₀ ((Action.enqueue op).runOn s).2 b
  | put {s : Setting T K σ} {b : Option (Aggregate T K)} (h : s₀.Course b₀ s b)
    (contents : Aggregate T K) (loaded : s.collection.isLoaded = true)
    (shape_eq : contents.shape = s.collection.contents.shape)
    (keyedById : s.collection.contents.KeyedById → contents.KeyedById) :
    s₀.Course b₀ ((Action.putContents contents).runOn s).2 b
  | load {s : Setting T K σ} {b : Option (Aggregate T K)} {a : Aggregate T K}
    (h : s₀.Course b₀ s b) (stage : s.collection.stage = .uninitialized) (loads : s.Loads a)
    (succeeds : (Action.ensureInitialized.runOn s).1 = .ok ()) :
    s₀.Course b₀ (Action.ensureInitialized.runOn s).2 (some a)
  | loadFailed {s : Setting T K σ} {b : Option (Aggregate T K)} {error : Error}
    (h : s₀.Course b₀ s b) (fails : (Action.ensureInitialized.runOn s).1 = .error error) :
    s₀.Course b₀ (Action.ensureInitialized.runOn s).2 b

namespace Setting.Course

open LazyCollections.Action

def Reaches (s₀ : Setting T K σ) (b₀ : Option (Aggregate T K)) (s : Setting T K σ) : Prop :=
  ∃ b, s₀.Course b₀ s b

def ReachesUnloaded (s₀ : Setting T K σ) (b₀ : Option (Aggregate T K)) (s : Setting T K σ) : Prop :=
  s.collection.isLoaded = false ∧ Reaches s₀ b₀ s

def ReachesLoaded (s₀ : Setting T K σ) (b₀ : Option (Aggregate T K)) (a : Aggregate T K)
    (s : Setting T K σ) : Prop :=
  s.collection.isLoaded = true ∧ s.collection.contents = a ∧ Reaches s₀ b₀ s

variable {s₀ s : Setting T K σ} {b₀ : Option (Aggregate T K)} {a : Aggregate T K}

theorem ensureInitialized_ensures (h : Reaches s₀ b₀ s) :
    Ensures s ensureInitialized (fun _ s' => ReachesLoaded s₀ b₀ s'.collection.contents s')
      fun _ s' => Reaches s₀ b₀ s' := by
  obtain ⟨b, h⟩ := h
  have heffect := ensureInitialized_effect (s := s)
  have hload {a : Aggregate T K} (hstage : s.collection.stage = .uninitialized)
      (hloads : s.Loads a) := h.load hstage hloads
  have hfailed {error : Error} (hrun : (ensureInitialized.runOn s).1 = .error error) :=
    h.loadFailed hrun
  rw [Ensures] at heffect ⊢
  cases hrun : ensureInitialized.runOn s with
  | mk result s' =>
    rw [hrun] at heffect hload hfailed
    cases result with
    | ok _ =>
      rcases heffect with ⟨hloaded, rfl⟩ | ⟨hstage, a, hloads, hreplay⟩
      · exact ⟨hloaded, rfl, b, h⟩
      · exact ⟨Collection.isLoaded_of_replayOnto hreplay, rfl, some a, hload hstage hloads rfl⟩
    | error error => exact ⟨b, hfailed rfl⟩

theorem probe_ensures {α : Type} {probe : Action T K σ α} {b : Option (Aggregate T K)}
    (h : s₀.Course b₀ (probe.runOn s).2 b) (hquiet : Quiet s probe)
    (hstage : s.collection.stage = .uninitialized) :
    Ensures s probe (fun _ => ReachesUnloaded s₀ b₀) fun _ => ReachesUnloaded s₀ b₀ := by
  refine Ensures.of_after ⟨?_, b, h⟩
  rw [hquiet.change.isLoaded_eq]
  exact isLoaded_eq_false hstage

theorem ReachesUnloaded.enqueue_ensures (h : ReachesUnloaded s₀ b₀ s)
    (op : QueuedOp T.Element K.Carrier) :
    Ensures s (Action.enqueue op) (fun _ => Reaches s₀ b₀) fun _ => Reaches s₀ b₀ := by
  obtain ⟨hunloaded, b, h⟩ := h
  exact Ensures.of_after ⟨b, h.enqueue op hunloaded⟩

theorem upholds : Upholds (Reaches s₀ b₀) (Reaches s₀ b₀) (ReachesLoaded s₀ b₀) where
  settle h := h
  of_loaded h := h.2.2
  load h := Ensures.loadedContents (ensureInitialized_ensures h)
  put := by
    rintro s _ next ⟨hloaded, rfl, b, h⟩ hshape hkeyed
    exact Ensures.of_after ⟨b, h.put next hloaded hshape hkeyed⟩
  fastSize := by
    rintro s ⟨b, h⟩
    exact Ensures.of_after ⟨b, h.fastSize⟩
  queueClear h hstage := ReachesUnloaded.enqueue_ensures ⟨isLoaded_eq_false hstage, h⟩ _

theorem upholdsList : UpholdsList (Reaches s₀ b₀) (Reaches s₀ b₀) (ReachesLoaded s₀ b₀) where
  toUpholds := upholds
  queueAdd _ h hstage := ReachesUnloaded.enqueue_ensures ⟨isLoaded_eq_false hstage, h⟩ _
  probe := by
    rintro s e ⟨b, h⟩ hstage
    exact (probe_ensures (h.probeMembership e) (quiet_probeMembership e) hstage).mono
      (fun _ _ hafter => ⟨hafter.2, fun _ => hafter.enqueue_ensures _⟩) fun _ _ hafter => hafter.2

theorem upholdsSet : UpholdsSet (Reaches s₀ b₀) (Reaches s₀ b₀) (ReachesLoaded s₀ b₀) where
  toUpholds := upholds
  probe := by
    rintro s e ⟨b, h⟩ hstage
    exact (probe_ensures (h.probeMembership e) (quiet_probeMembership e) hstage).mono
      (fun _ _ hafter => ⟨hafter.2, fun _ => hafter.enqueue_ensures _,
        fun _ => hafter.enqueue_ensures _⟩)
      fun _ _ hafter => hafter.2

theorem upholdsMap : UpholdsMap (Reaches s₀ b₀) (Reaches s₀ b₀) (ReachesLoaded s₀ b₀) where
  toUpholds := upholds
  probe := by
    rintro s k ⟨b, h⟩ hstage
    exact (probe_ensures (h.probeKey k) (quiet_probeKey k) hstage).mono
      (fun _ _ hafter => ⟨hafter.2, fun _ _ => hafter.enqueue_ensures _,
        fun _ _ => ⟨hafter.enqueue_ensures _, fun _ => hafter.enqueue_ensures _⟩⟩)
      fun _ _ hafter => hafter.2

theorem reaches_call (b : Option (Aggregate T K)) (call : ShapedCall T K shape) :
    Reaches s b (call.run.runOn s).2 :=
  (call.keeps upholdsList upholdsSet upholdsMap).after ⟨b, .start⟩

theorem reaches_ensureInitialized (b : Option (Aggregate T K)) :
    Reaches s b (ensureInitialized.runOn s).2 :=
  ((ensureInitialized_ensures ⟨b, .start⟩).post fun _ _ h => h.2.2).after

theorem reaches_disassemble (b : Option (Aggregate T K)) :
    Reaches s b (disassemble.runOn s).2 := by
  apply Ensures.after (R := Reaches s b)
  refine (ensureInitialized_ensures ⟨b, .start⟩).bind fun _ after h => ?_
  apply Ensures.collection_bind
  exact Keeps.ofExcept _ after h.2.2

end Setting.Course

/-- A move takes the base of the collection to another one. -/
inductive Setting.Renews (s : Setting T K σ) (b : Option (Aggregate T K)) :
    Move T K σ shape → Option (Aggregate T K) → Prop
  | call {call : ShapedCall T K shape} {b' : Option (Aggregate T K)}
    (h : s.Course b (call.run.runOn s).2 b') : s.Renews b (.call call) b'
  | ensureInitialized {b' : Option (Aggregate T K)}
    (h : s.Course b (Action.ensureInitialized.runOn s).2 b') : s.Renews b .ensureInitialized b'
  | disassemble {b' : Option (Aggregate T K)}
    (h : s.Course b (Action.disassemble.runOn s).2 b') : s.Renews b .disassemble b'
  | assembled {entry : CacheEntry} {a : Aggregate T K}
    (contents : entry.assemble s.collection.descriptor.shape = .ok a)
    (succeeds : ((Action.assemble entry).runOn s).1 = .ok ()) :
    s.Renews b (.assemble entry) (some a)
  | unassembled {entry : CacheEntry} {error : Error}
    (fails : ((Action.assemble entry).runOn s).1 = .error error) :
    s.Renews b (.assemble entry) b
  | stored {persister : Persister T K σ} (h : s.Stores persister) :
    s.Renews b (.flush persister) (some s.collection.contents)
  | unstored {persister : Persister T K σ} (h : ¬s.Stores persister) :
    s.Renews b (.flush persister) b
  | bind (session : SessionId) (slot : Nat) : s.Renews b (.bind session slot) b
  | unbind : s.Renews b .unbind b
  | setReadOnly (readOnly : Bool) : s.Renews b (.setReadOnly readOnly) b
  | setCachedSize (size : Nat) : s.Renews b (.setCachedSize size) b
  | surroundings (change : Environment σ → Environment σ) : s.Renews b (.surroundings change) b

theorem Setting.exists_renews (s : Setting T K σ) (b : Option (Aggregate T K))
    (move : Move T K σ shape) : ∃ b', s.Renews b move b' := by
  cases move with
  | call call =>
    obtain ⟨b', h⟩ := Course.reaches_call b call
    exact ⟨b', .call h⟩
  | ensureInitialized =>
    obtain ⟨b', h⟩ := Course.reaches_ensureInitialized b
    exact ⟨b', .ensureInitialized h⟩
  | disassemble =>
    obtain ⟨b', h⟩ := Course.reaches_disassemble b
    exact ⟨b', .disassemble h⟩
  | assemble entry =>
    cases hrun : ((Action.assemble entry).runOn s).1 with
    | ok _ =>
      obtain ⟨_, a, ha, _⟩ := (Action.assemble_effect entry).ok hrun
      exact ⟨some a, .assembled ha hrun⟩
    | error error => exact ⟨b, .unassembled hrun⟩
  | flush persister =>
    by_cases h : s.Stores persister
    · exact ⟨_, .stored h⟩
    · exact ⟨b, .unstored h⟩
  | bind session slot => exact ⟨b, .bind session slot⟩
  | unbind => exact ⟨b, .unbind⟩
  | setReadOnly readOnly => exact ⟨b, .setReadOnly readOnly⟩
  | setCachedSize size => exact ⟨b, .setCachedSize size⟩
  | surroundings change => exact ⟨b, .surroundings change⟩

/-- Moves, one after the other, take the base of a collection to another one. -/
inductive Move.Trace : Setting T K σ → Option (Aggregate T K) → List (Move T K σ shape) →
    Option (Aggregate T K) → Prop
  | nil {s : Setting T K σ} {b : Option (Aggregate T K)} : Trace s b [] b
  | cons {s : Setting T K σ} {b b' last : Option (Aggregate T K)} {move : Move T K σ shape}
    {moves : List (Move T K σ shape)} (h : s.Renews b move b')
    (rest : Trace (move.after s) b' moves last) : Trace s b (move :: moves) last

theorem Move.exists_trace (s : Setting T K σ) (b : Option (Aggregate T K))
    (moves : List (Move T K σ shape)) : ∃ last, Trace s b moves last := by
  induction moves generalizing s b with
  | nil => exact ⟨b, .nil⟩
  | cons move moves ih =>
    obtain ⟨b', h⟩ := s.exists_renews b move
    obtain ⟨last, rest⟩ := ih (move.after s) b'
    exact ⟨last, .cons h rest⟩

/-- What holds of a collection and its base however the collection is loaded, stored or otherwise
changed. -/
structure Collection.Invariant (I : Option (Aggregate T K) → Collection T K → Prop) : Prop where
  quiet : ∀ {b c c'}, I b c → c.QuietChange c' → I b c'
  load : ∀ {b c c' a}, I b c → a.shape = c.descriptor.shape → a.KeyedById →
    c.replayOnto a = .ok c' → I (some a) c'
  store : ∀ {b c}, I b c → c.isLoaded = true → I (some c.contents) c.settled

namespace Collection.Invariant

variable {I : Option (Aggregate T K) → Collection T K → Prop} (hI : Invariant I)
variable {s s' : Setting T K σ} {b b' : Option (Aggregate T K)}
include hI

theorem course (h : s.Course b s' b') (hs : I b s.collection) : I b' s'.collection := by
  induction h with
  | start => exact hs
  | fastSize _ ih => exact hI.quiet ih Action.quiet_fastSize.change
  | probeMembership _ e ih => exact hI.quiet ih (Action.quiet_probeMembership e).change
  | probeKey _ k ih => exact hI.quiet ih (Action.quiet_probeKey k).change
  | enqueue _ op hunloaded ih => exact hI.quiet ih (Action.quiet_enqueue op hunloaded).change
  | put _ contents hloaded hshape hkeyed ih =>
    exact hI.quiet ih (Action.quiet_putContents hloaded hshape hkeyed).change
  | load _ hstage hloads hrun ih =>
    rcases Action.ensureInitialized_effect.ok hrun with ⟨hloaded, _⟩ | ⟨_, a', hloads', hreplay⟩
    · rw [Action.isLoaded_eq_false hstage] at hloaded
      cases hloaded
    · obtain rfl := hloads.eq hloads'
      exact hI.load ih hloads.keeps.1 hloads.keeps.2 hreplay
  | loadFailed _ hrun ih => exact hI.quiet ih (Action.ensureInitialized_effect.error hrun).quiet

theorem renews {move : Move T K σ shape} (h : s.Renews b move b') (hs : I b s.collection) :
    I b' (move.after s).collection := by
  cases h with
  | call h | ensureInitialized h | disassemble h => exact hI.course h hs
  | @assembled entry a ha hrun =>
    obtain ⟨_, a', ha', hreplay⟩ := (Action.assemble_effect entry).ok hrun
    rw [ha] at ha'
    cases ha'
    exact hI.load hs (CacheEntry.assemble_keeps ha).1 (CacheEntry.assemble_keeps ha).2 hreplay
  | @unassembled entry error hrun =>
    have hsame : ((Action.assemble entry).runOn s).2 = s :=
      (Action.assemble_effect entry).error hrun
    exact hI.quiet hs (.of_eq (congrArg Setting.collection hsame))
  | stored h =>
    rw [Move.after, Action.flush_of_stores h]
    exact hI.store hs h.1
  | unstored h => exact hI.quiet hs (Action.quiet_flush h).change
  | bind session slot => exact hI.quiet hs (Action.quiet_bind session slot).change
  | unbind => exact hI.quiet hs Action.quiet_unbind.change
  | setReadOnly readOnly => exact hI.quiet hs (.setReadOnly readOnly)
  | setCachedSize size => exact hI.quiet hs (.setCachedSize size)
  | surroundings change => exact hs

theorem trace {moves : List (Move T K σ shape)} (h : Move.Trace s b moves b')
    (hs : I b s.collection) : I b' (Move.runAll moves s).collection := by
  induction h with
  | nil => exact hs
  | cons h _ ih => exact ih (hI.renews h hs)

/-- The invariant holds after every run, with the base that the run leads to. -/
theorem runAll (moves : List (Move T K σ shape)) (hs : I b s.collection) :
    ∃ last, I last (Move.runAll moves s).collection := by
  obtain ⟨last, h⟩ := Move.exists_trace s b moves
  exact ⟨last, hI.trace h hs⟩

end Collection.Invariant

/-- A collection as it is made: lazily, without a base, or of contents of which nothing is stored
yet. -/
inductive Setting.Made : Option (Aggregate T K) → Setting T K σ → Prop
  | lazy {env after : Environment σ} {c : Collection T K} (session : SessionId) (slot : Nat)
    (d : Descriptor) (expected : Shape)
    (made : (EnvironmentAction.lazyCollection session slot d expected).runOn env = (.ok c, after)) :
    Made none ⟨c, after⟩
  | list {env after : Environment σ} {c : Collection T K} (session : SessionId) (slot : Nat)
    (d : Descriptor) (elements : List T.Element)
    (made : (EnvironmentAction.wrapList session slot d elements).runOn env = (.ok c, after)) :
    Made (some (.empty d.shape)) ⟨c, after⟩
  | set {env after : Environment σ} {c : Collection T K} (session : SessionId) (slot : Nat)
    (d : Descriptor) (elements : List T.Element)
    (made : (EnvironmentAction.wrapSet session slot d elements).runOn env = (.ok c, after)) :
    Made (some (.empty d.shape)) ⟨c, after⟩
  | map {env after : Environment σ} {c : Collection T K} (session : SessionId) (slot : Nat)
    (d : Descriptor) (entries : List (K.Carrier × T.Element))
    (made : (EnvironmentAction.wrapMap session slot d entries).runOn env = (.ok c, after)) :
    Made (some (.empty d.shape)) ⟨c, after⟩

theorem Setting.Made.eq {s : Setting T K σ} {b : Option (Aggregate T K)} (h : s.Made b) :
    (b = none ∧ ∃ d a readOnly, s.collection = .unloaded d a readOnly) ∨
      ∃ d a contents, b = some (.empty d.shape) ∧ contents.shape = d.shape ∧ contents.KeyedById ∧
        s.collection = .ofContents d a contents := by
  have hwrapped {env after : Environment σ} {c : Collection T K} {session : SessionId} {slot : Nat}
      {d : Descriptor} (contents : Aggregate T K) (hkeyed : contents.KeyedById)
      (made : (EnvironmentAction.wrap session slot d contents).runOn env = (.ok c, after)) :
      ∃ d' a contents', some (.empty d.shape : Aggregate T K) = some (.empty d'.shape) ∧
        contents'.shape = d'.shape ∧ contents'.KeyedById ∧ c = .ofContents d' a contents' := by
    have hensures : EnvironmentAction.Ensures env _ _ _ :=
      EnvironmentAction.wrap_ensures session slot d contents
    rw [EnvironmentAction.Ensures, made] at hensures
    obtain ⟨_, hshape, a, rfl⟩ := hensures
    exact ⟨d, a, contents, rfl, hshape.symm, hkeyed, rfl⟩
  cases h with
  | @lazy env after c session slot d expected made =>
    have hensures : EnvironmentAction.Ensures env _ _ _ :=
      EnvironmentAction.lazyCollection_ensures (T := T) (K := K) session slot d expected
    rw [EnvironmentAction.Ensures, made] at hensures
    obtain ⟨_, a, readOnly, rfl⟩ := hensures
    exact .inl ⟨rfl, d, a, readOnly, rfl⟩
  | list session slot d elements made =>
    exact .inr (hwrapped (.sequence (elements.map some)) trivial made)
  | set session slot d elements made =>
    exact .inr (hwrapped (.setOfFirst elements) (Aggregate.keyedById_setOfFirst elements) made)
  | map session slot d entries made =>
    exact .inr (hwrapped (.keyedOfEntries entries) trivial made)

def Environment.handing (notes : List String) : Environment Unit where
  sessions :=
    [{ config := {}
       loader := .ofFeed ⟨notes.map fun note => .row .unordered (.text note), none⟩
       cached := false
       owners := [⟨.filled 0, false⟩] }]
  cache := { region := .empty none }
  source := ()

def Setting.handed (notes : List String) : Setting (.ofScalar .text) .unkeyed Unit :=
  ⟨.unloaded ⟨⟨"Order.notes"⟩, .sequence, {}⟩ ⟨⟨0⟩, 0, .filled 0⟩ false,
    ((EnvironmentAction.attach ⟨0⟩ 0 ⟨"Order.notes"⟩).runOn (.handing notes)).2⟩

theorem Setting.made_handed (notes : List String) : (Setting.handed notes).Made none := by
  have hrun : (EnvironmentAction.lazyCollection ⟨0⟩ 0 ⟨⟨"Order.notes"⟩, .sequence, {}⟩
      .sequence).runOn (.handing notes) =
        (.ok (Setting.handed notes).collection, (Setting.handed notes).environment) := rfl
  exact .lazy ⟨0⟩ 0 _ .sequence hrun

end LazyCollections
