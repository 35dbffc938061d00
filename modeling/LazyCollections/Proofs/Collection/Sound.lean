import LazyCollections.Proofs.Collection.Moves

/-!
# Sound collections

The fields of a collection fit together between any two moves, whether the moves succeeded or failed:
what is not loaded is empty, what is loaded has nothing queued, and everything has the shape of the
collection. So no call ever finds contents of another shape, and loaded contents can always be
compared with the snapshot.
-/

namespace LazyCollections

set_option autoImplicit false

variable {T : ElementType} {K : Scalar} {σ α : Type} {shape : Shape}

structure Collection.Sound (c : Collection T K) : Prop where
  contents_shape : c.contents.shape = c.descriptor.shape
  snapshot_shape : ∀ snapshot, c.snapshot = some snapshot → snapshot.shape = c.descriptor.shape
  stage_ne : c.stage ≠ .initializing
  attached : c.stage = .uninitialized → c.attachment.isSome = true
  unloaded : c.isLoaded = false →
    c.contents = .empty c.descriptor.shape ∧ c.snapshot = none ∧ c.dirty = false
  loaded : c.isLoaded = true → c.queue = [] ∧ c.cachedSize = none ∧
    (c.snapshot.isSome = true ↔ c.descriptor.options.dirtyChecking = true) ∧
    (c.stage = .readOnlyInitialized ↔ c.readOnly = true)
  keyedById : c.contents.KeyedById

theorem exists_diffRows {old new : Aggregate T K} (h : old.shape = new.shape) :
    ∃ changes, diffRows old new = .ok changes := by
  cases old <;> cases new <;> cases h <;> exact ⟨_, rfl⟩

namespace Collection.Sound

variable {c c' : Collection T K} {a : Aggregate T K}

theorem snapshot_shape_of {a : Aggregate T K} {checked : Bool}
    (hshape : a.shape = c.descriptor.shape) (snapshot : Aggregate T K)
    (h : (if checked then some a else none) = some snapshot) :
    snapshot.shape = c.descriptor.shape := by
  split at h
  next =>
    cases h
    exact hshape
  next => cases h

theorem isSome_ite (checked : Bool) (a : Aggregate T K) :
    (if checked then some a else none).isSome = true ↔ checked = true := by
  cases checked <;> simp

theorem unloaded_new (d : Descriptor) (a : Attachment) (readOnly : Bool) :
    (Collection.unloaded d a readOnly : Collection T K).Sound where
  contents_shape := Aggregate.shape_empty _
  snapshot_shape := nofun
  stage_ne := nofun
  attached _ := rfl
  unloaded _ := ⟨rfl, rfl, rfl⟩
  loaded := nofun
  keyedById := Aggregate.keyedById_empty _

theorem ofContents (d : Descriptor) (a : Attachment) {contents : Aggregate T K}
    (hshape : contents.shape = d.shape) (hkeyed : contents.KeyedById) :
    (Collection.ofContents d a contents).Sound where
  contents_shape := hshape
  snapshot_shape := snapshot_shape_of (Aggregate.shape_empty _)
  stage_ne := nofun
  attached := nofun
  unloaded := nofun
  loaded _ := ⟨rfl, rfl, isSome_ite _ _, nofun, nofun⟩
  keyedById := hkeyed

theorem replayOnto (ha : a.shape = c.descriptor.shape) (hkeyed : a.KeyedById)
    (hc : c.replayOnto a = .ok c') : c'.Sound := by
  have hloaded := isLoaded_of_replayOnto hc
  obtain ⟨contents, hreplay, hc⟩ := bind_eq_ok.mp hc
  obtain ⟨hshape, hcontents⟩ := replay_keeps hreplay hkeyed
  cases hc
  exact
    { contents_shape := hshape.trans ha
      snapshot_shape := snapshot_shape_of (a.shape_deepCopy.trans ha)
      stage_ne := by cases hread : c.readOnly <;> nofun
      attached := by cases hread : c.readOnly <;> nofun
      unloaded := fun hunloaded => absurd hloaded (Bool.eq_false_iff.mp hunloaded)
      loaded := fun _ => ⟨rfl, rfl, isSome_ite _ _, by cases hread : c.readOnly <;> simp⟩
      keyedById := hcontents }

theorem settled (h : c.Sound) (hloaded : c.isLoaded = true) : c.settled.Sound := by
  rw [settled_of_loaded hloaded]
  obtain ⟨hqueue, hsize, -, hreadOnly⟩ := h.loaded hloaded
  exact
    { h with
      snapshot_shape := snapshot_shape_of (c.contents.shape_deepCopy.trans h.contents_shape)
      unloaded := fun hunloaded => absurd hloaded (Bool.eq_false_iff.mp hunloaded)
      loaded := fun _ => ⟨hqueue, hsize, isSome_ite _ _, hreadOnly⟩ }

theorem loseSession (h : c.Sound) : c.loseSession.Sound := by
  unfold Collection.loseSession
  split
  next hstage =>
    have hunloaded : c.isLoaded = false := by
      rw [isLoaded, hstage]
      rfl
    exact
      { h with
        stage_ne := by rintro ⟨⟩
        attached := by rintro ⟨⟩
        unloaded := fun _ => h.unloaded hunloaded
        loaded := by rintro ⟨⟩ }
  next => exact h

theorem findSession (h : c.Sound) (a : Attachment) : (c.findSession a).Sound :=
  { h with
    stage_ne := by
      unfold Collection.findSession
      split
      next => nofun
      next => exact h.stage_ne
    attached := fun _ => rfl
    unloaded := fun hunloaded => h.unloaded (c.isLoaded_findSession a ▸ hunloaded)
    loaded := by
      intro hloaded
      rw [c.isLoaded_findSession] at hloaded
      have hstage : c.stage ≠ .unbound := by
        intro hunbound
        rw [isLoaded, hunbound] at hloaded
        cases hloaded
      rw [Collection.findSession, if_neg hstage]
      exact h.loaded hloaded }

theorem detach (h : c.Sound) : { c.loseSession with attachment := none : Collection T K }.Sound :=
  { h.loseSession with
    attached := by
      intro hstage
      unfold Collection.loseSession at hstage
      split at hstage
      next => cases hstage
      next hother => exact absurd hstage hother }

theorem setReadOnly (h : c.Sound) (readOnly : Bool) : (c.setReadOnly readOnly).Sound := by
  cases hloaded : c.isLoaded with
  | true =>
    rw [setReadOnly_of_loaded hloaded]
    obtain ⟨hqueue, hsize, hsnapshot, -⟩ := h.loaded hloaded
    exact
      { h with
        stage_ne := by cases readOnly <;> nofun
        attached := by cases readOnly <;> nofun
        unloaded := by cases readOnly <;> nofun
        loaded := fun _ => ⟨hqueue, hsize, hsnapshot, by cases readOnly <;> simp⟩ }
  | false =>
    rw [setReadOnly_of_unloaded hloaded]
    exact { h with loaded := fun hread => absurd hread (Bool.eq_false_iff.mp hloaded) }

theorem of_quietChange (h : c.Sound) (hc : c.QuietChange c') : c'.Sound := by
  cases hc with
  | same => exact h
  | loseSession => exact h.loseSession
  | findSession a => exact h.findSession a
  | detach => exact h.detach
  | setReadOnly readOnly => exact h.setReadOnly readOnly
  | noteSize _ hunloaded | enqueue _ hunloaded | emptyQueue hunloaded =>
    exact { h with loaded := fun hloaded => absurd hloaded (Bool.eq_false_iff.mp hunloaded) }
  | put contents hloaded hshape hkeyed =>
    exact
      { h with
        contents_shape := hshape.trans h.contents_shape
        unloaded := fun hunloaded => absurd hloaded (Bool.eq_false_iff.mp hunloaded)
        keyedById := hkeyed h.keyedById }
  | findUnchanged hloaded =>
    exact
      { h with
        unloaded := fun hunloaded => absurd hloaded (Bool.eq_false_iff.mp hunloaded) }

theorem exists_diff (h : c.Sound) (hloaded : c.isLoaded = true) :
    ∃ changes, c.diff = .ok changes := by
  rw [Collection.diff, if_pos hloaded]
  cases hsnapshot : c.snapshot with
  | none => exact ⟨_, rfl⟩
  | some old =>
    have hshape : old.shape = c.contents.shape :=
      (h.snapshot_shape old hsnapshot).trans h.contents_shape.symm
    obtain ⟨changes, hchanges⟩ := exists_diffRows hshape
    rw [LazyCollections.diff, hchanges]
    exact ⟨_, rfl⟩

theorem invariant (d : Descriptor) :
    Collection.Invariant fun (_ : Option (Aggregate T K)) c => c.descriptor = d ∧ c.Sound where
  quiet h hc := ⟨hc.descriptor_eq.trans h.1, h.2.of_quietChange hc⟩
  load h ha hkeyed hc := ⟨(descriptor_of_replayOnto hc).trans h.1, replayOnto ha hkeyed hc⟩
  store h hloaded := ⟨(descriptor_settled _).trans h.1, h.2.settled hloaded⟩

end Collection.Sound

theorem Setting.Made.sound {s : Setting T K σ} {b : Option (Aggregate T K)} (h : s.Made b) :
    s.collection.Sound := by
  rcases h.eq with ⟨_, d, a, readOnly, hc⟩ | ⟨d, a, contents, _, hshape, hkeyed, hc⟩
  · rw [hc]
    exact .unloaded_new d a readOnly
  · rw [hc]
    exact .ofContents d a hshape hkeyed

namespace Aggregate

variable {a : Aggregate T K}

theorem exists_asSequence (h : a.shape = .sequence) :
    ∃ slots, a.asSequence = .ok slots ∧ .sequence slots = a := by
  obtain ⟨slots, rfl⟩ := exists_eq_sequence h
  exact ⟨slots, rfl, rfl⟩

theorem exists_asSet (h : a.shape = .set) : ∃ items, a.asSet = .ok items ∧ .set items = a := by
  obtain ⟨items, rfl⟩ := exists_eq_set h
  exact ⟨items, rfl, rfl⟩

theorem exists_asKeyed (h : a.shape = .keyed) :
    ∃ items, a.asKeyed = .ok items ∧ .keyed items = a := by
  obtain ⟨items, rfl⟩ := exists_eq_keyed h
  exact ⟨items, rfl, rfl⟩

end Aggregate

/-- The action gives the contents in another form, and fails only where they are not to be had. -/
def Setting.Reads (s : Setting T K σ) (form : α → Aggregate T K) (view : Action T K σ α)
    (contents : Action T K σ (Aggregate T K)) : Prop :=
  ((view.runOn s).1.map form, (view.runOn s).2) = contents.runOn s

/-- Calls find the contents in the form of the shape of the collection, to read and to write. -/
def Setting.Readable (s : Setting T K σ) : Prop :=
  match s.collection.descriptor.shape with
  | .sequence =>
    s.Reads .sequence LazyList.slots Action.loadedContents ∧
      s.Reads .sequence LazyList.writableSlots Action.writableContents
  | .set =>
    s.Reads .set LazySet.items Action.loadedContents ∧
      s.Reads .set LazySet.writableItems Action.writableContents
  | .keyed =>
    s.Reads .keyed LazyMap.items Action.loadedContents ∧
      s.Reads .keyed LazyMap.writableItems Action.writableContents

section Readable

open LazyCollections.Action

variable {s : Setting T K σ} {d : Descriptor}

theorem Setting.reads {form : α → Aggregate T K} {view : Aggregate T K → Except Error α}
    {contents : Action T K σ (Aggregate T K)}
    (h : ∀ a, (contents.runOn s).1 = .ok a → ∃ x, view a = .ok x ∧ form x = a) :
    s.Reads form (do view (← contents)) contents := by
  rw [Reads, runOn_bind]
  cases hrun : contents.runOn s with
  | mk result after =>
    rw [hrun] at h
    cases result with
    | error error => rfl
    | ok a =>
      obtain ⟨x, hx, rfl⟩ := h a rfl
      simp only [runOn_ofExcept, hx]
      rfl

theorem Setting.readable
    (hloaded : ∀ a, (loadedContents.runOn s).1 = .ok a →
      a.shape = s.collection.descriptor.shape)
    (hwritable : ∀ a, (writableContents.runOn s).1 = .ok a →
      a.shape = s.collection.descriptor.shape) : s.Readable := by
  unfold Readable
  cases hshape : s.collection.descriptor.shape with
  | sequence =>
    rw [hshape] at hloaded hwritable
    exact ⟨reads fun a ha => Aggregate.exists_asSequence (hloaded a ha),
      reads fun a ha => Aggregate.exists_asSequence (hwritable a ha)⟩
  | set =>
    rw [hshape] at hloaded hwritable
    exact ⟨reads fun a ha => Aggregate.exists_asSet (hloaded a ha),
      reads fun a ha => Aggregate.exists_asSet (hwritable a ha)⟩
  | keyed =>
    rw [hshape] at hloaded hwritable
    exact ⟨reads fun a ha => Aggregate.exists_asKeyed (hloaded a ha),
      reads fun a ha => Aggregate.exists_asKeyed (hwritable a ha)⟩

theorem Setting.Course.readable {s₀ : Setting T K σ} {b₀ b : Option (Aggregate T K)}
    (h : s₀.Course b₀ s b) (hsound : s₀.collection.Sound) : s.Readable := by
  have hafter {s' : Setting T K σ} {b' : Option (Aggregate T K)} (h' : s₀.Course b₀ s' b') :=
    (Collection.Sound.invariant s₀.collection.descriptor).course h' ⟨rfl, hsound⟩
  have hshape {a : Aggregate T K} {s' : Setting T K σ} (hreached : ReachesLoaded s₀ b₀ a s') :
      a.shape = s.collection.descriptor.shape := by
    obtain ⟨-, rfl, b', h'⟩ := hreached
    rw [(hafter h').2.contents_shape, (hafter h').1, (hafter h).1]
  exact Setting.readable (fun a ha => hshape ((upholds.load ⟨b, h⟩).ok ha))
    fun a ha => hshape ((upholds.writable ⟨b, h⟩).ok ha)

end Readable

/-- However a collection was made and whatever was done with it, it is sound. On the way of the next
call its contents are always found in the form of its shape, and once it is loaded they can be
compared with the snapshot. -/
theorem Setting.Made.sound_runAll {s : Setting T K σ} {b : Option (Aggregate T K)} (h : s.Made b)
    (moves : List (Move T K σ s.collection.descriptor.shape)) :
    let after := Move.runAll moves s
    after.collection.descriptor = s.collection.descriptor ∧ after.collection.Sound ∧
      (∀ b₀ s₁ b₁, after.Course b₀ s₁ b₁ → s₁.Readable) ∧
      (after.collection.isLoaded = true → ∃ changes, after.collection.diff = .ok changes) := by
  intro after
  obtain ⟨_, hdescriptor, hsound⟩ :=
    (Collection.Sound.invariant s.collection.descriptor).runAll (b := b) moves ⟨rfl, h.sound⟩
  exact ⟨hdescriptor, hsound, fun _ _ _ hcourse => hcourse.readable hsound, hsound.exists_diff⟩

/-- A note is queued for a list that then loses its session. Bound again, the list is loaded, closed
to changes and flushed. -/
theorem Setting.sound_runAll_notes :
    (Setting.handed ["fragile"]).Made none ∧
      ∃ s, s = Move.runAll
          [.call (.ofList (.push "urgent")), .unbind, .call (.ofList .slots), .bind ⟨0⟩ 0,
            .call (.ofList .slots), .setReadOnly true, .call (.ofList .clear),
            .flush fun _ _ _ u => (.ok (), u)]
          (Setting.handed ["fragile"]) ∧
        s.collection.Sound ∧ ∃ changes, s.collection.diff = .ok changes := by
  obtain ⟨-, hsound, -, hdiff⟩ := (made_handed ["fragile"]).sound_runAll
    [.call (.ofList (.push "urgent")), .unbind, .call (.ofList .slots), .bind ⟨0⟩ 0,
      .call (.ofList .slots), .setReadOnly true, .call (.ofList .clear),
      .flush fun _ _ _ u => (.ok (), u)]
  exact ⟨made_handed _, _, rfl, hsound, hdiff rfl⟩

end LazyCollections
