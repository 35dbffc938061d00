import LazyCollections.Proofs.Refinement.Tracking

/-!
# Answers of unloaded collections

What an unloaded collection answers from its queue or from a probe agrees with the contents that it
stands for. A probe without an answer, like one that fails, changes nothing.
-/

namespace LazyCollections

set_option autoImplicit false

variable {T : ElementType} {K : Scalar}

namespace Tracks

open LazyCollections.Action

variable {d : Descriptor} {a : Attachment} {t : Trouble} {stored now : Aggregate T K}
variable {s : Setting T K Database} (hs : Tracks d a t stored now s)
include hs

/-- An unloaded collection has a queue that leads from what is stored to its contents. -/
theorem queueRun (hstage : s.collection.stage = .uninitialized) :
    QueueRun stored s.collection.queue now := by
  cases hs.standsFor with
  | unloaded stage run size => exact run
  | loaded stage contents queue snapshot clean =>
    rw [hstage] at stage
    cases stage

theorem noted (hstage : s.collection.stage = .uninitialized) (n : Nat)
    (hn : s.collection.cachedSize = some n) : n = stored.size := by
  cases hs.standsFor with
  | unloaded stage run size => exact size n hn
  | loaded stage contents queue snapshot clean =>
    rw [hstage] at stage
    cases stage

/-- A probe of a set or a sequence tells whether an element of the identity is there. In a sequence
it tells so of a present element only if the queue does not concern it. -/
theorem probeMembership_ensures (hT : T.Lawful d.shape)
    (hstage : s.collection.stage = .uninitialized) (hshape : d.shape ≠ .keyed) (e : T.Element) :
    Ensures s (probeMembership e)
      (fun found s' => (Tracks d a t stored now s' ∧ s'.collection = s.collection) ∧
        ∀ x, found = some x → x = now.has e ∧ (x = true → d.shape = .sequence →
          queuedMembership .sequence s.collection.queue e = none))
      (FailsOffline d a t stored now) := by
  have hid := hT.storableId hshape
  refine (hs.heldBy.probeMembership_ensures e).mono ?_ ?_
  · rintro found s' ⟨hasked, htold⟩
    refine ⟨hs.onlyAsked hasked, fun x hx => ?_⟩
    obtain ⟨hhas, hunnamed⟩ :=
      (htold x hx).eq_has hT.toStorable hid hs.provides hshape (hs.queueRun hstage)
    exact ⟨hhas, fun hpresent hsequence => (hunnamed hpresent hsequence).1⟩
  · rintro error s' ⟨hasked, hout | hunable⟩
    · exact hs.failsOffline hasked hout
    · rw [hid.externalizeId_eq e] at hunable
      cases hunable

theorem probeKey_ensures (hT : T.Storable) (hK : K.Restores)
    (hstage : s.collection.stage = .uninitialized) {items : SortedMap K.Carrier T.Element}
    (hnow : now = .keyed items) (k : K.Carrier) :
    Ensures s (probeKey k)
      (fun found s' => (Tracks d a t stored now s' ∧ s'.collection = s.collection) ∧
        ∀ entry, found = some entry → items.get? k = entry)
      (FailsOffline d a t stored now) := by
  have run := hs.queueRun hstage
  have hstored := hs.provides
  subst hnow
  obtain ⟨base, rfl⟩ := Aggregate.exists_eq_keyed run.shape_eq.symm
  refine (hs.heldBy.probeKey_ensures k).mono ?_ ?_
  · rintro found s' ⟨hasked, htold⟩
    exact ⟨hs.onlyAsked hasked, fun entry hentry => (htold entry hentry).get?_eq hT hK hstored run⟩
  · rintro error s' ⟨hasked, hout | hunreadable⟩
    · exact hs.failsOffline hasked hout
    · rw [hstored.entryAt_eq hT hK k] at hunreadable
      cases hunreadable

theorem fastSize_ensures :
    Ensures s fastSize
      (fun found s' => Tracks d a t stored now s' ∧ ∀ n, found = some n → n = now.size)
      (FailsOffline d a t stored now) := by
  refine hs.heldBy.fastSize_ensures.mono ?_ fun _ _ h => hs.failsOffline h.1 h.2
  intro found s' hlooked
  cases hlooked with
  | unasked => exact ⟨hs, nofun⟩
  | asked _ later hstage hempty hagrees hfound =>
    have run := hs.queueRun hstage
    have hsize : ∀ n, found = some n → n = stored.size := by
      intro n hn
      rcases hfound n hn with hnoted | hcounted
      · exact hs.noted hstage n hnoted
      · rw [hcounted, hs.provides.size_eq]
    refine ⟨?_, fun n hn => run.eq_of_isEmpty hempty ▸ hsize n hn⟩
    exact (hs.withEnvironment hagrees).withCollection hs.descriptor hs.attachment hs.writable
      hs.now_inOrder (.unloaded hstage run hsize)

theorem size_ensures (hT : T.Lawful d.shape) (hK : K.Restores) :
    Ensures s size (fun n s' => n = now.size ∧ Tracks d a t stored now s')
      (FailsOffline d a t stored now) := by
  refine Ensures.bind hs.fastSize_ensures ?_
  intro found s₁ h₁
  rcases h₁ with ⟨hs₁, hfound⟩
  cases found with
  | some n =>
    exact Ensures.pure ⟨hfound n rfl, hs₁⟩
  | none =>
    refine Ensures.bind (hs₁.loadedContents_ensures hT hK) ?_
    intro contents s₂ h₂
    rcases h₂ with ⟨rfl, hs₂⟩
    exact Ensures.pure ⟨rfl, hs₂.toTracks⟩

theorem isEmpty_ensures (hT : T.Lawful d.shape) (hK : K.Restores) :
    Ensures s isEmpty (fun b s' => b = now.isEmpty ∧ Tracks d a t stored now s')
      (FailsOffline d a t stored now) := by
  refine Ensures.bind (hs.size_ensures hT hK) ?_
  intro n s₁ h₁
  rcases h₁ with ⟨rfl, hs₁⟩
  exact Ensures.pure ⟨rfl, hs₁⟩

/-- A change does what is asked if it does so queued and in the loaded contents. -/
theorem change_ensures {α : Type} {queued loaded : Action T K Database α}
    {Q : α → Setting T K Database → Prop} {E : Error → Setting T K Database → Prop}
    (hqueued : s.collection.stage = .uninitialized → Ensures s queued Q E)
    (hloaded : Ensures s loaded Q E) :
    Ensures s
      (do
        (← collection).checkWritable
        if ← mayQueue then queued else loaded) Q E := by
  apply Ensures.collection_bind
  have hwritable : s.collection.checkWritable = .ok () := by
    rw [Collection.checkWritable, hs.writable]
    rfl
  apply Ensures.ofExcept_bind hwritable
  refine Ensures.bind mayQueue_ensures ?_
  intro allowed s' h'
  rcases h' with ⟨rfl, hallowed⟩
  cases allowed with
  | true => exact hqueued (hallowed rfl)
  | false => exact hloaded

section Views

variable {β : Type} {view : Aggregate T K → Except Error β} {get : Action T K Database β}
variable {items : β} (hT : T.Lawful d.shape) (hK : K.Restores)
include hT hK

theorem loaded_ensures (hget : get = do view (← loadedContents)) (hview : view now = .ok items) :
    Ensures s get (fun found s' => found = items ∧ Tracks d a t stored now s')
      (FailsOffline d a t stored now) := by
  rw [hget]
  refine Ensures.bind (hs.loadedContents_ensures hT hK) ?_
  intro contents s₁ h₁
  rcases h₁ with ⟨rfl, hs₁⟩
  exact Ensures.ofExcept hview ⟨rfl, hs₁.toTracks⟩

theorem writable_ensures (hget : get = do view (← writableContents))
    (hview : view now = .ok items) :
    Ensures s get (fun found s' => found = items ∧ LoadedAs d a t stored now s')
      (FailsOffline d a t stored now) := by
  rw [hget]
  refine Ensures.bind (hs.writableContents_ensures hT hK) ?_
  intro contents s₁ h₁
  rcases h₁ with ⟨rfl, hs₁⟩
  exact Ensures.ofExcept hview ⟨rfl, hs₁⟩

theorem read_ensures {α : Type} (hget : get = do view (← loadedContents))
    (hview : view now = .ok items) (f : β → α) :
    Ensures s (do return f (← get))
      (fun x s' => x = f items ∧ Tracks d a t stored now s') (FailsOffline d a t stored now) := by
  refine Ensures.bind (hs.loaded_ensures hT hK hget hview) ?_
  intro found s' hs'
  rcases hs' with ⟨rfl, hs'⟩
  exact Ensures.pure ⟨rfl, hs'⟩

theorem clear_ensures (hget : get = do view (← writableContents))
    (hview : view now = .ok items) {empty : β → Bool}
    (hempty : empty items = true → now = now.cleared) :
    Ensures s
      (do
        (← collection).checkWritable
        if ← mayQueue then enqueue .clear
        else if !empty (← get) then putContents now.cleared)
      (fun _ => Tracks d a t stored now.cleared) (FailsOffline d a t stored now) := by
  have hcleared := hs.now_inOrder.cleared
  refine hs.change_ensures (fun hstage => hs.enqueue_ensures hstage hcleared (.clear _)) ?_
  refine Ensures.bind (hs.writable_ensures hT hK hget hview) ?_
  intro found s₁ h₁
  rcases h₁ with ⟨rfl, hs₁⟩
  split
  next => exact hs₁.putContents_ensures hs₁.stage hcleared
  next hnone =>
    apply Ensures.pure
    rw [← hempty (by simpa using hnone)]
    exact hs₁.toTracks

end Views

end Tracks

end LazyCollections
