import LazyCollections.Proofs.Queue.Keyed

/-!
# The work of a queue is exact

The work that a queue amounts to, carried out on what is stored, leaves the contents that the queue
has led to.
-/

namespace LazyCollections

set_option autoImplicit false

variable {T : ElementType} {K : Scalar}

theorem QueueWork.ofQueue_snoc (queue : List (QueuedOp T.Element K.Carrier))
    (op : QueuedOp T.Element K.Carrier) : ofQueue (queue ++ [op]) = (ofQueue queue).addOp op :=
  List.foldl_append

namespace QueueRun

variable {queue : List (QueuedOp T.Element K.Carrier)} {stored now : Aggregate T K}

theorem onSequence {base : List (Option T.Element)} (run : QueueRun stored queue now)
    (hstored : stored = .sequence base) :
    ∃ slots gone added, now = .sequence slots ∧
      (QueueWork.ofQueue queue).OnSequence queue base slots gone added := by
  induction run with
  | nil =>
    refine ⟨base, [], [], hstored, nofun, rfl, rfl, rfl, ?_, (List.append_nil base).symm⟩
    exact fun e he => absurd he List.not_mem_nil
  | snoc _ step ih =>
    obtain ⟨slots, gone, added, rfl, h⟩ := ih
    rw [QueueWork.ofQueue_snoc]
    exact h.addOp step

theorem onSet {base : SortedMap T.Id T.Element} (run : QueueRun stored queue now)
    (hstored : stored = .set base) :
    ∃ items gone added, now = .set items ∧
      (QueueWork.ofQueue queue).OnSet base items gone added := by
  induction run with
  | nil =>
    refine ⟨base, [], [], hstored, rfl, rfl, rfl, List.Pairwise.nil, ?_, rfl⟩
    exact fun e he => absurd he List.not_mem_nil
  | snoc _ step ih =>
    obtain ⟨items, gone, added, rfl, h⟩ := ih
    rw [QueueWork.ofQueue_snoc]
    exact h.addOp step

theorem onKeyed {base : SortedMap K.Carrier T.Element} (run : QueueRun stored queue now)
    (hstored : stored = .keyed base) :
    ∃ items gone changed added, now = .keyed items ∧
      (QueueWork.ofQueue queue).OnKeyed base items gone changed added := by
  induction run with
  | nil =>
    refine ⟨base, [], [], [], hstored, rfl, rfl, rfl, nofun, List.Pairwise.nil,
      List.Pairwise.nil, ?_, rfl⟩
    exact fun e he => absurd he List.not_mem_nil
  | snoc _ step ih =>
    obtain ⟨items, gone, changed, added, rfl, h⟩ := ih
    rw [QueueWork.ofQueue_snoc]
    exact h.addOp step

theorem carryOut_ofQueue (run : QueueRun stored queue now) (collectOrphans : Bool) :
    (ChangeSet.ofQueue queue collectOrphans).carryOut stored = now.trimmed := by
  have hchanges : (ChangeSet.ofQueue queue collectOrphans).carryOut stored =
      (QueueWork.ofQueue queue).changes.carryOut stored := by
    rw [ChangeSet.ofQueue]
    split <;> rfl
  rw [hchanges]
  cases hstored : stored with
  | sequence base =>
    obtain ⟨slots, gone, added, rfl, h⟩ := run.onSequence hstored
    rw [ChangeSet.carryOut_sequence _ h.deletions h.updates h.insertions, h.slots_eq]
  | set base =>
    obtain ⟨items, gone, added, rfl, h⟩ := run.onSet hstored
    rw [ChangeSet.carryOut_set _ h.updates, h.items_eq, h.deletions, h.insertions]
    simp only [QueueWork.kept, List.map_map, List.foldl_map]
    rfl
  | keyed base =>
    obtain ⟨items, gone, changed, added, rfl, h⟩ := run.onKeyed hstored
    rw [ChangeSet.carryOut_keyed _ h.deletions h.updates h.insertions, h.items_eq,
      List.foldl_append, List.foldl_map]
    rfl

end QueueRun

end LazyCollections
