import LazyCollections.Proofs.Changes.DiffExact
import LazyCollections.Proofs.Collection.Sound

/-!
# What the contents of a collection go back to

A loaded collection that is compared with what is stored keeps a copy of its base: of what was last
loaded, before its queue was carried out, or last stored. Unless it is marked as changed, its
contents compare equal to that copy. So a flush that finds nothing to write drops nothing.
-/

namespace LazyCollections

set_option autoImplicit false

variable {T : ElementType} {K : Scalar} {σ : Type} {shape : Shape}

section Copies

variable (hcopy : ∀ e, T.isDirty e (T.deepCopy e) = false)
include hcopy

theorem slotUnchanged_deepCopy (slot : Option T.Element) :
    slotUnchanged T (slot.map T.deepCopy) slot = true := by
  cases slot with
  | none => rfl
  | some e =>
    rw [Option.map_some, slotUnchanged, hcopy]
    rfl

theorem entriesUnchanged_deepCopy {κ : Type} [Ord κ] [Std.TransOrd κ] [Std.LawfulEqOrd κ]
    (items : SortedMap κ T.Element) :
    entriesUnchanged T (items.mapValues T.deepCopy) items = true := by
  refine entriesUnchanged_iff.mpr ⟨List.length_map _, fun e he => ⟨T.deepCopy e.2, ?_, hcopy e.2⟩⟩
  rw [SortedMap.get?_mapValues, SortedMap.get?_eq_some_iff.mpr he, Option.map_some]

theorem equalsSnapshot_deepCopy (a : Aggregate T K) : equalsSnapshot a.deepCopy a = true := by
  cases a with
  | sequence slots =>
    rw [Aggregate.deepCopy, equalsSnapshot, Bool.and_eq_true, decide_eq_true_eq, List.all_eq_true]
    refine ⟨List.length_map _, fun pair hpair => ?_⟩
    obtain ⟨i, _, rfl⟩ := List.getElem_of_mem hpair
    rw [List.getElem_zip, List.getElem_map]
    exact slotUnchanged_deepCopy hcopy _
  | set items => exact entriesUnchanged_deepCopy hcopy items
  | keyed items => exact entriesUnchanged_deepCopy hcopy items

end Copies

@[simp] theorem Aggregate.deepCopy_empty (shape : Shape) :
    (Aggregate.empty shape : Aggregate T K).deepCopy = .empty shape := by
  cases shape <;> rfl

/-- The snapshot is a copy of the base, and contents that are not marked as changed compare equal to
it. -/
structure Collection.Backed (base : Aggregate T K) (c : Collection T K) : Prop where
  base_shape : base.shape = c.descriptor.shape
  base_keyedById : base.KeyedById
  snapshot : c.snapshot = some base.deepCopy
  clean : c.dirty = false → LazyCollections.equalsSnapshot base.deepCopy c.contents = true

namespace Collection.Backed

variable {c c' : Collection T K} {base a : Aggregate T K}

theorem equalsSnapshot_eq (h : c.Backed base) (hloaded : c.isLoaded = true) :
    c.equalsSnapshot = LazyCollections.equalsSnapshot base.deepCopy c.contents := by
  rw [Collection.equalsSnapshot, if_pos hloaded, h.snapshot]
  rfl

theorem of_quietChange (h : c.Backed base) (hloaded : c.isLoaded = true)
    (hc : c.QuietChange c') : c'.Backed base := by
  have hlost : c.loseSession.Backed base := by
    unfold loseSession
    split
    next => exact { h with }
    next => exact h
  cases hc with
  | same => exact h
  | loseSession => exact hlost
  | detach => exact { hlost with }
  | findSession | setReadOnly | noteSize | enqueue | emptyQueue => exact { h with }
  | put contents => exact { h with clean := nofun }
  | findUnchanged _ hequal =>
    rw [h.equalsSnapshot_eq hloaded] at hequal
    exact { h with clean := fun _ => hequal }

section Copies

variable (hcopy : ∀ e, T.isDirty e (T.deepCopy e) = false)
variable (hchecked : c.descriptor.options.dirtyChecking = true)
include hcopy hchecked

theorem replayOnto (ha : a.shape = c.descriptor.shape) (hkeyed : a.KeyedById)
    (hc : c.replayOnto a = .ok c') : c'.Backed a := by
  obtain ⟨contents, hreplay, hc⟩ := bind_eq_ok.mp hc
  cases hc
  refine ⟨ha, hkeyed, if_pos hchecked, fun hclean => ?_⟩
  have hempty : c.queue = [] := by simpa using hclean
  rw [hempty] at hreplay
  cases hreplay
  exact equalsSnapshot_deepCopy hcopy a

theorem settled (h : c.Sound) (hloaded : c.isLoaded = true) : c.settled.Backed c.contents := by
  rw [settled_of_loaded hloaded]
  exact ⟨h.contents_shape, h.keyedById, if_pos hchecked,
    fun _ => equalsSnapshot_deepCopy hcopy c.contents⟩

end Copies

/-- Contents that compare equal to a copy of the base are the base, if states tell elements
apart. -/
theorem contents_eq (h : c.Backed base) (hsound : c.Sound) (hT : T.Lawful c.descriptor.shape)
    (hequal : LazyCollections.equalsSnapshot base.deepCopy c.contents = true) :
    c.contents = base := by
  rw [Aggregate.deepCopy_eq hT.faithful] at hequal
  exact eq_of_equalsSnapshot (h.base_shape ▸ hT.tellsApart) h.base_keyedById hsound.keyedById hequal

end Collection.Backed

/-- A collection of the given kind is sound, and if it is loaded its contents go back to the
base. -/
structure Collection.IsBacked (d : Descriptor) (b : Option (Aggregate T K)) (c : Collection T K) :
    Prop where
  descriptor : c.descriptor = d
  sound : c.Sound
  backed : c.isLoaded = true → ∃ base, b = some base ∧ c.Backed base

namespace Collection.IsBacked

variable {d : Descriptor} (hcopy : ∀ e, T.isDirty e (T.deepCopy e) = false)
variable (hchecked : d.options.dirtyChecking = true)
include hcopy hchecked

theorem invariant : Collection.Invariant (Collection.IsBacked d : Option (Aggregate T K) → _) where
  quiet h hc :=
    { descriptor := hc.descriptor_eq.trans h.descriptor
      sound := h.sound.of_quietChange hc
      backed := by
        intro hloaded
        rw [hc.isLoaded_eq] at hloaded
        obtain ⟨base, hb, hbacked⟩ := h.backed hloaded
        exact ⟨base, hb, hbacked.of_quietChange hloaded hc⟩ }
  load h ha hkeyed hc :=
    { descriptor := (descriptor_of_replayOnto hc).trans h.descriptor
      sound := .replayOnto ha hkeyed hc
      backed := fun _ =>
        ⟨_, rfl, .replayOnto hcopy (h.descriptor ▸ hchecked) ha hkeyed hc⟩ }
  store h hloaded :=
    { descriptor := (descriptor_settled _).trans h.descriptor
      sound := h.sound.settled hloaded
      backed := fun _ => ⟨_, rfl, .settled hcopy (h.descriptor ▸ hchecked) h.sound hloaded⟩ }

end Collection.IsBacked

section Runs

variable (hcopy : ∀ e, T.isDirty e (T.deepCopy e) = false)
variable {s : Setting T K σ} {b : Option (Aggregate T K)}

include hcopy in
/-- A new collection is marked as changed unless it is empty, as nothing of it is stored. -/
theorem Setting.Made.isBacked (h : s.Made b)
    (hchecked : s.collection.descriptor.options.dirtyChecking = true) :
    s.collection.IsBacked s.collection.descriptor b := by
  refine ⟨rfl, h.sound, fun hloaded => ?_⟩
  rcases h.eq with ⟨_, d, a, readOnly, hc⟩ | ⟨d, a, contents, hb, hshape, _, hc⟩
  · rw [hc] at hloaded
    cases hloaded
  · rw [hc] at hchecked ⊢
    refine ⟨.empty d.shape, hb, Aggregate.shape_empty _, Aggregate.keyedById_empty _, ?_, ?_⟩
    · rw [Aggregate.deepCopy_empty]
      exact if_pos hchecked
    · intro hclean
      have hempty : contents.isEmpty = true := Bool.not_eq_false' .. ▸ hclean
      have hcontents := Aggregate.eq_empty_of_isEmpty hempty
      rw [hshape] at hcontents
      rw [← hcontents]
      exact equalsSnapshot_deepCopy hcopy contents

/-- A flush of loaded contents that has written nothing found them equal to a copy of their base. -/
theorem Setting.equalsSnapshot_of_flush {base : Aggregate T K}
    (h : s.collection.Backed base) (hloaded : s.collection.isLoaded = true)
    (hwritable : s.collection.readOnly = false) {persister : Persister T K σ}
    {outcome : FlushOutcome} (hrun : ((Action.flush persister).runOn s).1 = .ok outcome)
    (hnothing : outcome = .skipped ∨ outcome = .clean) :
    equalsSnapshot base.deepCopy s.collection.contents = true := by
  have hensures : Action.Ensures s (Action.flush persister)
      (fun outcome _ => outcome = .skipped ∨ outcome = .clean →
        equalsSnapshot base.deepCopy s.collection.contents = true)
      fun _ _ => True := by
    apply Action.Ensures.flush
    · rintro (hreadOnly | ⟨_, hclean⟩ | ⟨hunloaded, _⟩) _ _ _
      · rw [hwritable] at hreadOnly
        cases hreadOnly
      · exact h.clean hclean
      · rw [hloaded] at hunloaded
        cases hunloaded
    · exact fun _ _ _ => trivial
    · exact fun _ => trivial
    · exact fun _ _ _ _ => trivial
    · intro _ _ hequal _
      rwa [h.equalsSnapshot_eq hloaded] at hequal
    · intro session a hflushes _
      have hunloaded := hflushes.unloaded
      rw [hloaded] at hunloaded
      cases hunloaded
    · intro a changes hover
      apply Action.Ensures.flush_of_handsOver hover
      · intro _ _ session _ later _
        exact (EnvironmentAction.Ensures.anything _ _).mono (fun _ _ _ => nofun)
          fun _ _ _ => trivial
      · exact fun _ _ _ => trivial
  exact hensures.ok hrun hnothing

include hcopy in
/-- Whatever was done with a collection that is compared with what is stored: once it is loaded, its
snapshot is a copy of its base, that is of what was last loaded, before the queue was carried out,
or last stored, or of empty contents. Contents that are not marked as changed compare equal to it.
So a flush of a writable collection that has written nothing found its contents equal to the
base. -/
theorem Setting.Made.backed_runAll (h : s.Made b)
    (hchecked : s.collection.descriptor.options.dirtyChecking = true)
    (moves : List (Move T K σ s.collection.descriptor.shape)) :
    let after := Move.runAll moves s
    (∃ b', Move.Trace s b moves b') ∧
      ∀ b', Move.Trace s b moves b' → after.collection.isLoaded = true →
        ∃ base, b' = some base ∧ after.collection.snapshot = some base.deepCopy ∧
          (after.collection.dirty = false → after.collection.equalsSnapshot = true) ∧
          (after.collection.readOnly = false → ∀ persister outcome,
            ((Action.flush persister).runOn after).1 = .ok outcome →
              outcome = .skipped ∨ outcome = .clean →
                equalsSnapshot base.deepCopy after.collection.contents = true ∧
                  (T.Lawful s.collection.descriptor.shape → after.collection.contents = base)) := by
  intro after
  refine ⟨Move.exists_trace s b moves, fun b' htrace hloaded => ?_⟩
  have hafter := (Collection.IsBacked.invariant hcopy hchecked).trace htrace (h.isBacked hcopy hchecked)
  obtain ⟨base, hb, hbacked⟩ := hafter.backed hloaded
  refine ⟨base, hb, hbacked.snapshot, fun hclean => ?_, ?_⟩
  · rw [hbacked.equalsSnapshot_eq hloaded]
    exact hbacked.clean hclean
  · intro hwritable persister outcome hrun hnothing
    have hequal := Setting.equalsSnapshot_of_flush hbacked hloaded hwritable hrun hnothing
    refine ⟨hequal, fun hT => hbacked.contents_eq hafter.sound ?_ hequal⟩
    rwa [hafter.descriptor]

/-- A note is queued, carried out on what is loaded, and stored. The next flush skips the list: its
contents are what was stored. -/
theorem Setting.backed_runAll_notes :
    ∃ base : Aggregate (.ofScalar .text) .unkeyed,
      Move.Trace (Setting.handed ["fragile"]) none
          [.call (.ofList (.push "urgent")), .ensureInitialized,
            .flush fun _ _ _ u => (.ok (), u)] (some base) ∧
        (Move.runAll
            [.call (.ofList (.push "urgent")), .ensureInitialized,
              .flush fun _ _ _ u => (.ok (), u)]
            (Setting.handed ["fragile"])).collection.contents = base := by
  have hT := ElementType.lawful_ofScalar Scalar.restores_text nofun .sequence
  obtain ⟨⟨b, htrace⟩, hbacked⟩ := (made_handed ["fragile"]).backed_runAll hT.isDirty_self rfl
    [.call (.ofList (.push "urgent")), .ensureInitialized, .flush fun _ _ _ u => (.ok (), u)]
  obtain ⟨base, rfl, -, -, hskipped⟩ := hbacked b htrace rfl
  exact ⟨base, htrace,
    (hskipped rfl (fun _ _ _ u => (.ok (), u)) .skipped rfl (.inl rfl)).2 hT⟩

end Runs

end LazyCollections
