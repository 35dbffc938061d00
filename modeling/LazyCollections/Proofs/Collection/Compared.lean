import LazyCollections.Proofs.Changes.DiffEmpty
import LazyCollections.Proofs.Collection.Rebound

/-!
# Flushes without work

A flush first asks whether the contents equal the snapshot, and computes the difference only if they
do not. Where the contents differ from the snapshot in null slots at the end alone there is no work
on rows, and the flush hands an empty change set over. No other flush of loaded contents with a
snapshot does.
-/

namespace LazyCollections

set_option autoImplicit false

open LazyCollections.Action

variable {T : ElementType} {K : Scalar} {σ : Type}
variable {s : Setting T K σ} {p q : Persister T K σ}

theorem persist_congr {a : Attachment} {changes : ChangeSet T.Element K.Carrier}
    (h : ∀ owner d source, p owner d changes source = q owner d changes source) :
    persist p a changes = persist q a changes := by
  have hasked : ∀ d, p a.owner d changes = q a.owner d changes := fun d => funext (h a.owner d)
  unfold persist
  simp only [hasked]

/-- A flush of loaded contents asks the persister for nothing but the difference. -/
theorem flushLoaded_congr
    (h : s.collection.equalsSnapshot = false → ∀ changes, s.collection.diff = .ok changes →
      ∀ owner d source, p owner d changes source = q owner d changes source) :
    (flushLoaded p).runOn s = (flushLoaded q).runOn s := by
  rw [flushLoaded, flushLoaded, runOn_bind, runOn_bind, runOn_collection]
  dsimp only
  split
  next => rfl
  next =>
    split
    next => rfl
    next hunequal =>
      rw [runOn_bind, runOn_bind]
      rcases activeSession.runOn s with ⟨_ | found, after⟩
      · rfl
      · dsimp only
        rw [runOn_bind, runOn_bind, runOn_ofExcept]
        cases hdiff : s.collection.diff with
        | error error => rfl
        | ok changes =>
          dsimp only
          rw [persist_congr (h (Bool.eq_false_iff.mpr hunequal) changes hdiff)]

theorem flush_congr (hloaded : s.collection.isLoaded = true)
    (h : s.collection.equalsSnapshot = false → ∀ changes, s.collection.diff = .ok changes →
      ∀ owner d source, p owner d changes source = q owner d changes source) :
    (flush p).runOn s = (flush q).runOn s := by
  rw [flush, flush, runOn_bind, runOn_bind, runOn_collection]
  dsimp only
  split
  next => rfl
  next =>
    rw [Collection.isLoaded] at hloaded
    cases hstage : s.collection.stage with
    | initialized | readOnlyInitialized => exact flushLoaded_congr h
    | initializing => rfl
    | unbound | uninitialized =>
      rw [hstage] at hloaded
      cases hloaded

theorem eq_ofChanges_of_wrote (hloaded : s.collection.isLoaded = true)
    {changes : ChangeSet T.Element K.Carrier} (hdiff : s.collection.diff = .ok changes)
    {outcome : FlushOutcome} (hflush : ((flush p).runOn s).1 = .ok outcome)
    (hwrote : outcome.wrote = true) :
    s.collection.equalsSnapshot = false ∧ outcome = .ofChanges changes := by
  have hends : Ensures s (flush p)
      (fun found _ => found.wrote = true →
        s.collection.equalsSnapshot = false ∧ found = .ofChanges changes) fun _ _ => True := by
    apply Ensures.flush
    · exact fun _ _ _ => nofun
    · exact fun _ _ _ => trivial
    · exact fun _ => trivial
    · exact fun _ _ _ _ => trivial
    · exact fun _ _ _ => nofun
    · exact fun _ _ hqueue _ => absurd hloaded (Bool.eq_false_iff.mp hqueue.unloaded)
    · intro a handed hover
      obtain ⟨hhanded, hunequal⟩ := hover.diff_of_loaded hloaded
      obtain rfl : handed = changes := Except.ok.inj (hhanded.symm.trans hdiff)
      apply Ensures.flush_of_handsOver hover
      · exact fun source _ session _ later _ => (EnvironmentAction.Ensures.anything _ _).mono
          (fun _ _ _ _ => ⟨hunequal, rfl⟩) fun _ _ _ => trivial
      · exact fun _ _ _ => trivial
  rw [Ensures] at hends
  rcases hrun : (flush p).runOn s with ⟨result, after⟩
  rw [hrun] at hflush hends
  cases hflush
  exact hends hwrote

section Snapshot

variable {old : Aggregate T K} {changes : ChangeSet T.Element K.Carrier}
variable (hloaded : s.collection.isLoaded = true) (hold : s.collection.snapshot = some old)
variable (hdiff : s.collection.diff = .ok changes)
include hloaded hold hdiff

theorem diff_of_snapshot : diff (some old) s.collection.contents
    s.collection.descriptor.options.orphanDelete = .ok changes := by
  rw [← hdiff, Collection.diff, if_pos hloaded, hold]

theorem equalsSnapshot_iff_of_snapshot :
    s.collection.equalsSnapshot = true ↔
      changes.isEmpty = true ∧ ¬old.OnlyPadded s.collection.contents := by
  rw [Collection.equalsSnapshot, if_pos hloaded, hold, Option.any_some]
  exact equalsSnapshot_iff_isEmpty (diff_of_snapshot hloaded hold hdiff)

theorem ofChanges_of_wrote {outcome : FlushOutcome} (hflush : ((flush p).runOn s).1 = .ok outcome)
    (hwrote : outcome.wrote = true) :
    outcome = .ofChanges changes ∧
      (changes.isEmpty = true ↔ old.OnlyPadded s.collection.contents) := by
  obtain ⟨hunequal, houtcome⟩ := eq_ofChanges_of_wrote hloaded hdiff hflush hwrote
  rw [← Bool.not_eq_true, equalsSnapshot_iff_of_snapshot hloaded hold hdiff] at hunequal
  refine ⟨houtcome, fun hempty => ?_, fun hpadded => ?_⟩
  · by_contra hnot
    exact hunequal ⟨hempty, hnot⟩
  · exact (isEmpty_diff_iff (diff_of_snapshot hloaded hold hdiff)).1.mpr hpadded.2

theorem flush_congr_of_not_onlyPadded (hnot : ¬old.OnlyPadded s.collection.contents)
    (h : ∀ owner d c source, c.isEmpty = false → p owner d c source = q owner d c source) :
    (flush p).runOn s = (flush q).runOn s := by
  refine flush_congr hloaded fun hunequal c hc owner d source => h owner d c source ?_
  obtain rfl : c = changes := Except.ok.inj (hc.symm.trans hdiff)
  rw [← Bool.not_eq_true, equalsSnapshot_iff_of_snapshot hloaded hold hdiff] at hunequal
  exact Bool.eq_false_iff.mpr fun hempty => hunequal ⟨hempty, hnot⟩

end Snapshot

/-- The two comparisons of contents with a snapshot of their shape agree unless the two differ in
padding alone. So a flush of loaded contents with a snapshot, whatever was done with the collection
before, asks its persister for no empty change set and reports none as written, but for that case:
then it finds the contents unequal and hands an empty difference over. -/
theorem emptyWork_iff_onlyPadded {start : Setting T K σ} {b : Option (Aggregate T K)}
    (hmade : start.Made b) (moves : List (Move T K σ start.collection.descriptor.shape))
    (hchecked : start.collection.descriptor.options.dirtyChecking = true) :
    (∀ (old new : Aggregate T K) (collectOrphans : Bool), old.shape = new.shape →
      ∃ c, diff (some old) new collectOrphans = .ok c ∧
        (equalsSnapshot old new = true ↔ c.isEmpty = true ∧ ¬old.OnlyPadded new)) ∧
    let s := Move.runAll moves start
    s.collection.isLoaded = true →
      ∃ old changes, s.collection.snapshot = some old ∧ s.collection.diff = .ok changes ∧
        ∀ p : Persister T K σ,
          (∀ outcome, ((flush p).runOn s).1 = .ok outcome → outcome.wrote = true →
            outcome = .ofChanges changes ∧
              (changes.isEmpty = true ↔ old.OnlyPadded s.collection.contents)) ∧
          (¬old.OnlyPadded s.collection.contents → ∀ q : Persister T K σ,
            (∀ owner d c source, c.isEmpty = false → p owner d c source = q owner d c source) →
              (flush p).runOn s = (flush q).runOn s) := by
  refine ⟨fun old new collectOrphans hshape => ?_, fun hloaded => ?_⟩
  · obtain ⟨rows, hrows⟩ := exists_diffRows hshape
    obtain ⟨c, hdiff⟩ : ∃ c, diff (some old) new collectOrphans = .ok c := by
      rw [diff, hrows]
      exact ⟨_, rfl⟩
    exact ⟨c, hdiff, equalsSnapshot_iff_isEmpty hdiff⟩
  · obtain ⟨hdescriptor, hsound, _, hcomparable⟩ := hmade.sound_runAll moves
    obtain ⟨changes, hdiff⟩ := hcomparable hloaded
    obtain ⟨_, _, hsnapshot, _⟩ := hsound.loaded hloaded
    rw [hdescriptor] at hsnapshot
    obtain ⟨old, hold⟩ := Option.isSome_iff_exists.mp (hsnapshot.mpr hchecked)
    exact ⟨old, changes, hold, hdiff, fun _ =>
      ⟨fun _ hflush hwrote => ofChanges_of_wrote hloaded hold hdiff hflush hwrote,
        fun hnot _ h => flush_congr_of_not_onlyPadded hloaded hold hdiff hnot h⟩⟩

theorem emptyWork_iff_onlyPadded_notes :
    let s := Move.runAll [.ensureInitialized, .call (.ofList (.push "urgent"))]
      (.noting ["fragile"])
    ((flush Database.persister).runOn s).1 = .ok (.flushed 0 0 1 false) ∧
      ∃ changes, s.collection.diff = .ok changes ∧
        FlushOutcome.flushed 0 0 1 false = .ofChanges changes ∧
        (changes.isEmpty = true ↔
          Aggregate.OnlyPadded (.sequence [some "fragile"]) s.collection.contents) := by
  intro s
  have hflush : ((flush Database.persister).runOn s).1 = .ok (.flushed 0 0 1 false) := rfl
  obtain ⟨-, hrun⟩ := emptyWork_iff_onlyPadded (Setting.made_noting ["fragile"])
    [.ensureInitialized, .call (.ofList (.push "urgent"))] rfl
  obtain ⟨old, changes, hold, hdiff, hflushes⟩ := hrun rfl
  obtain rfl : Aggregate.sequence [some "fragile"] = old := Option.some.inj hold
  obtain ⟨houtcome, hempty⟩ := (hflushes Database.persister).1 _ hflush rfl
  exact ⟨hflush, changes, hdiff, houtcome, hempty⟩

/-- A note is added and put out again. The slot that is left is null, so there is no work on rows,
and yet the persister is asked for it and the flush reports to have written. -/
theorem Setting.padding_flushed :
    let s := Move.runAll [.call (.ofList (.push "urgent")), .call (.ofList (.setNull 1))]
      (.noting ["fragile"])
    s.collection.snapshot = some (.sequence [some "fragile"]) ∧
      s.collection.contents = .sequence [some "fragile", none] ∧
      s.collection.equalsSnapshot = false ∧ s.collection.diff = .ok {} ∧
      ((flush Database.persister).runOn s).1 = .ok (.flushed 0 0 0 false) ∧
      ((flush Database.persister).runOn s).2.environment.source.journal =
        [⟨.filled 0, ⟨"Order.notes"⟩, {}, 0⟩] :=
  ⟨rfl, rfl, rfl, rfl, rfl, rfl⟩

end LazyCollections
