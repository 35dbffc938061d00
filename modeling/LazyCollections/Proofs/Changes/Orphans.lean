import LazyCollections.Changes.Diff
import LazyCollections.Proofs.Queue.Displaced

/-!
# Orphans that are reported

The difference of loaded contents reports exactly the identities that were stored and are no longer
held. The work of a queue knows the elements that it has displaced only: it reports those that it
does not write back, also when another row of the same identity is left in place, and it does not
report what goes with all rows.
-/

namespace LazyCollections

set_option autoImplicit false

variable {T : ElementType} {K : Scalar} {i : T.Id}

def ChangeSet.orphanIds (c : ChangeSet T.Element K.Carrier) : List T.Id :=
  c.orphans.map T.idOf

theorem mem_map_distinctBy {α β : Type} [DecidableEq β] {f : α → β} {xs : List α} {y : β} :
    y ∈ (distinctBy f xs).map f ↔ y ∈ xs.map f := by
  induction xs with
  | nil => rfl
  | cons x xs ih =>
    have hrest : y ∈ ((distinctBy f xs).filter fun z => f z ≠ f x).map f ↔
        y ∈ xs.map f ∧ y ≠ f x := by
      rw [← ih, List.mem_map, List.mem_map]
      simp only [List.mem_filter, decide_eq_true_eq]
      constructor
      · rintro ⟨z, ⟨hz, hne⟩, rfl⟩
        exact ⟨⟨z, hz, rfl⟩, hne⟩
      · rintro ⟨⟨z, hz, rfl⟩, hne⟩
        exact ⟨z, ⟨hz, hne⟩, rfl⟩
    rw [distinctBy, List.map_cons, List.map_cons, List.mem_cons, List.mem_cons, hrest]
    by_cases hx : y = f x
    · simp [hx]
    · simp [hx]

theorem mem_ids_unlisted {live : List T.Id} {elements : List T.Element} :
    i ∈ (unlisted live elements).map T.idOf ↔ i ∈ elements.map T.idOf ∧ i ∉ live := by
  rw [unlisted, mem_map_distinctBy, List.mem_map, List.mem_map]
  simp only [List.mem_filter, Bool.not_eq_true', List.contains_eq_mem, decide_eq_false_iff_not]
  constructor
  · rintro ⟨e, ⟨he, hlive⟩, rfl⟩
    exact ⟨⟨e, he, rfl⟩, hlive⟩
  · rintro ⟨⟨e, he, rfl⟩, hlive⟩
    exact ⟨e, ⟨he, hlive⟩, rfl⟩

/-- Loaded contents miss exactly the identities that only the snapshot has. -/
theorem mem_ids_orphans {old new : Aggregate T K} :
    i ∈ (orphans old new).map T.idOf ↔ i ∈ old.ids ∧ i ∉ new.ids :=
  mem_ids_unlisted

section Queues

variable {queue : List (QueuedOp T.Element K.Carrier)} {stored now : Aggregate T K}

theorem ChangeSet.mem_orphanIds_ofQueue :
    i ∈ (ChangeSet.ofQueue queue true).orphanIds ↔
      i ∈ (QueueWork.ofQueue queue).displaced.map T.idOf ∧
        i ∉ (QueueWork.ofQueue queue).written :=
  mem_ids_unlisted

theorem QueueWork.Accounts.orphanIds_subset (h : (QueueWork.ofQueue queue).Accounts stored) :
    (ChangeSet.ofQueue queue true).orphanIds ⊆ stored.ids := by
  intro i hi
  obtain ⟨e, he, rfl⟩ := List.mem_map.mp (ChangeSet.mem_orphanIds_ofQueue.mp hi).1
  exact h.found e he

theorem ChangeSet.inPlace_ofQueue (collectOrphans : Bool) (a : Aggregate T K) :
    (ChangeSet.ofQueue queue collectOrphans).inPlace a =
      (QueueWork.ofQueue queue).changes.inPlace a := by
  rw [ChangeSet.ofQueue]
  split <;> rfl

namespace QueueRun

variable (run : QueueRun stored queue now) (hkeyed : stored.KeyedById)
include run hkeyed

/-- A reported orphan is still stored exactly if another row of its identity is left in place. -/
theorem orphan_live_iff (hi : i ∈ (ChangeSet.ofQueue queue true).orphanIds) :
    i ∈ now.ids ↔ i ∈ ((ChangeSet.ofQueue queue true).inPlace stored).ids := by
  rw [run.mem_ids_iff hkeyed, ChangeSet.inPlace_ofQueue]
  exact or_iff_left (ChangeSet.mem_orphanIds_ofQueue.mp hi).2

variable (haccounts : (QueueWork.ofQueue queue).Accounts stored)
include haccounts

/-- An identity that is gone was reported, unless it went with all rows. -/
theorem orphan_iff_of_gone (hstored : i ∈ stored.ids) (hgone : i ∉ now.ids) :
    i ∈ (ChangeSet.ofQueue queue true).orphanIds ↔
      .clear ∉ queue ∨ i ∈ (QueueWork.ofQueue queue).displaced.map T.idOf := by
  rw [run.mem_ids_iff hkeyed, not_or] at hgone
  rw [ChangeSet.mem_orphanIds_ofQueue]
  constructor
  · exact fun hi => .inr hi.1
  · rintro (hclear | hdisplaced)
    · have hplaced := run.mem_inPlace_or_displaced hkeyed haccounts hclear hstored
      exact ⟨hplaced.resolve_left hgone.1, hgone.2⟩
    · exact ⟨hdisplaced, hgone.2⟩

/-- No orphan is stored any more where every identity was stored once, or if all rows went. -/
theorem orphan_gone (honce : stored.ids.Nodup ∨ .clear ∈ queue)
    (hi : i ∈ (ChangeSet.ofQueue queue true).orphanIds) : i ∉ now.ids := by
  rw [run.orphan_live_iff hkeyed hi, ChangeSet.inPlace_ofQueue]
  rcases honce with hnodup | hclear
  · obtain ⟨e, he, rfl⟩ := List.mem_map.mp (ChangeSet.mem_orphanIds_ofQueue.mp hi).1
    exact run.not_mem_inPlace_of_nodup hkeyed haccounts hnodup he
  · exact ChangeSet.not_mem_inPlace_of_truncate ((QueueWork.truncate_ofQueue queue).mpr hclear) _ _

end QueueRun

end Queues

end LazyCollections
