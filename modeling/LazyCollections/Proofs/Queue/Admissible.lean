import Mathlib.Data.List.Induction
import LazyCollections.Proofs.Queue.Exact
import LazyCollections.Proofs.Storage.Keeping

/-!
# Queues that may be written without a load

A queue may be written to the rows of a collection that nobody has loaded, if each operation fits
the contents that the operations before it lead to. In a sequence, where an element may occur
several times, a removal must moreover be the first that the queue says about the element, and the
element must be stored. The work of such a queue leaves the rows of the contents that the queue
leads to, operation by operation.
-/

namespace LazyCollections

set_option autoImplicit false

variable {T : ElementType} {K : Scalar}

namespace QueuedOp

/-- An operation names an element if it brings in or displaces one of its identity. -/
def Names (e : T.Element) (op : QueuedOp T.Element K.Carrier) : Prop :=
  ∃ d, (op.added? = some d ∨ op.displaced? = some d) ∧ T.idOf d = T.idOf e

/-- The operations that fit contents reached from what is stored by earlier operations. -/
inductive Fits (stored : Aggregate T K) (earlier : List (QueuedOp T.Element K.Carrier)) :
    Aggregate T K → QueuedOp T.Element K.Carrier → Prop
  | clear (now : Aggregate T K) : Fits stored earlier now .clear
  | append (slots : List (Option T.Element)) (e : T.Element) :
    Fits stored earlier (.sequence slots) (.add .unordered e)
  | removeFirst (slots : List (Option T.Element)) (e : T.Element)
    (hstored : stored.has e = true) (hclear : .clear ∉ earlier)
    (hnames : ∀ op ∈ earlier, ¬op.Names e) :
    Fits stored earlier (.sequence slots) (.remove .unordered e)
  | insert (items : SortedMap T.Id T.Element) (e : T.Element)
    (h : items.contains (T.idOf e) = false) :
    Fits stored earlier (.set items) (.add .unordered e)
  | erase (items : SortedMap T.Id T.Element) (e : T.Element)
    (h : items.contains (T.idOf e) = true) :
    Fits stored earlier (.set items) (.remove .unordered e)
  | put (items : SortedMap K.Carrier T.Element) (k : K.Carrier) (e : T.Element)
    (h : items.contains k = false) :
    Fits stored earlier (.keyed items) (.add (.key k) e)
  | replace (items : SortedMap K.Carrier T.Element) (k : K.Carrier) (old e : T.Element)
    (h : items.get? k = some old) :
    Fits stored earlier (.keyed items) (.replace (.key k) old e)
  | take (items : SortedMap K.Carrier T.Element) (k : K.Carrier) (old : T.Element)
    (h : items.get? k = some old) :
    Fits stored earlier (.keyed items) (.remove (.key k) old)

theorem leaves?_eq_none_iff (op : QueuedOp T.Element K.Carrier) (e : T.Element) :
    op.leaves? e = none ↔ op ≠ .clear ∧ ¬op.Names e := by
  cases op with
  | clear => simp [leaves?]
  | add slot d => simp [leaves?, Names, added?, displaced?]
  | remove slot d => simp [leaves?, Names, added?, displaced?]
  | replace slot old new =>
    have hnames : (replace slot old new : QueuedOp T.Element K.Carrier).Names e ↔
        T.idOf new = T.idOf e ∨ T.idOf old = T.idOf e := by
      simp [Names, added?, displaced?, or_and_right, exists_or]
    rw [hnames, leaves?]
    simp only [ElementType.same_iff]
    split
    next hnew => simp [hnew]
    next hnew =>
      split
      next hold => simp [hold]
      next hold => simp [hnew, hold]

theorem membership?_sequence_eq_none_iff (op : QueuedOp T.Element K.Carrier) (e : T.Element) :
    op.membership? .sequence e = none ↔ op ≠ .clear ∧ ¬op.Names e := by
  rw [membership?_sequence_eq_none, leaves?_eq_none_iff]

end QueuedOp

/-- A queue leaves the elements of a sequence to what is stored as long as it neither clears the
sequence nor names them. -/
theorem queuedMembership_sequence_eq_none_iff (queue : List (QueuedOp T.Element K.Carrier))
    (e : T.Element) :
    queuedMembership .sequence queue e = none ↔ .clear ∉ queue ∧ ∀ op ∈ queue, ¬op.Names e := by
  simp only [queuedMembership, List.findSome?_eq_none_iff, List.mem_reverse,
    QueuedOp.membership?_sequence_eq_none_iff]
  constructor
  · intro h
    exact ⟨fun hclear => (h _ hclear).1 rfl, fun op hop => (h op hop).2⟩
  · rintro ⟨hclear, hnames⟩ op hop
    exact ⟨fun heq => hclear (heq ▸ hop), hnames op hop⟩

/-- Each operation of the queue fits the contents that those before it lead to. -/
def Admissible (stored : Aggregate T K) (queue : List (QueuedOp T.Element K.Carrier)) : Prop :=
  ∀ earlier op later, queue = earlier ++ op :: later →
    ∃ now, replay earlier stored = .ok now ∧ op.Fits stored earlier now

namespace Admissible

variable {stored now : Aggregate T K} {queue : List (QueuedOp T.Element K.Carrier)}
variable {op : QueuedOp T.Element K.Carrier}

theorem nil : Admissible stored [] :=
  fun earlier op later h => by simp at h

theorem snoc (h : Admissible stored queue) (hnow : replay queue stored = .ok now)
    (hop : op.Fits stored queue now) : Admissible stored (queue ++ [op]) := by
  intro earlier last later heq
  cases later using List.reverseRecOn with
  | nil =>
    obtain ⟨rfl, hlast⟩ := List.append_inj' heq rfl
    obtain rfl := List.singleton_inj.mp hlast
    exact ⟨now, hnow, hop⟩
  | append_singleton later next _ =>
    rw [← List.cons_append, ← List.append_assoc] at heq
    exact h earlier last later (List.append_inj' heq rfl).1

theorem of_snoc (h : Admissible stored (queue ++ [op])) :
    Admissible stored queue ∧
      ∃ now, replay queue stored = .ok now ∧ op.Fits stored queue now := by
  refine ⟨?_, h queue op [] rfl⟩
  intro earlier last later heq
  exact h earlier last (later ++ [op]) (by rw [heq, List.append_assoc, List.cons_append])

end Admissible

theorem QueuedOp.Fits.exists_step {stored now : Aggregate T K}
    {earlier : List (QueuedOp T.Element K.Carrier)} {op : QueuedOp T.Element K.Carrier}
    (h : op.Fits stored earlier now) : ∃ next, QueueStep earlier now op next := by
  cases h with
  | clear => exact ⟨_, .clear now⟩
  | append slots e => exact ⟨_, .append slots e⟩
  | removeFirst slots e hstored hclear hnames =>
    exact ⟨_, .removeFirst slots e
      ((queuedMembership_sequence_eq_none_iff earlier e).mpr ⟨hclear, hnames⟩)⟩
  | insert items e h => exact ⟨_, .insert items e (SortedMap.contains_eq_false_iff.mp h)⟩
  | erase items e h =>
    obtain ⟨old, hold⟩ := SortedMap.contains_iff.mp h
    exact ⟨_, .erase items e (by simp [hold])⟩
  | put items k e h => exact ⟨_, .put items k e (SortedMap.contains_eq_false_iff.mp h)⟩
  | replace items k old e h => exact ⟨_, .replace items k old e h⟩
  | take items k old h => exact ⟨_, .take items k old h⟩

theorem Admissible.exists_run (hclean : ∀ e, T.isDirty e e = false) {stored : Aggregate T K}
    {queue : List (QueuedOp T.Element K.Carrier)} (h : Admissible stored queue) :
    ∃ now, QueueRun stored queue now := by
  induction queue using List.reverseRecOn with
  | nil => exact ⟨stored, .nil⟩
  | append_singleton queue op ih =>
    obtain ⟨hqueue, reached, hreplay, hfits⟩ := h.of_snoc
    obtain ⟨now, run⟩ := ih hqueue
    obtain rfl : now = reached := Except.ok.inj ((run.replay_eq hclean).symm.trans hreplay)
    obtain ⟨next, step⟩ := hfits.exists_step
    exact ⟨next, run.snoc step⟩

/-- The work of an admissible queue, done on the rows of a collection, leaves the rows of the
contents that the queue leads to operation by operation. -/
theorem Store.apply_ofQueue (hT : T.Storable) (hid : T.StorableId)
    (hclean : ∀ e, T.isDirty e e = false) (hK : K.Restores) {store : Store} {d : Descriptor}
    {owner : EntityId} {stored : Aggregate T K} (hstored : store.Provides d owner stored)
    {queue : List (QueuedOp T.Element K.Carrier)} (hqueue : Admissible stored queue)
    (collectOrphans : Bool) :
    ∃ now work, replay queue stored = .ok now ∧
      Database.rowWork (ChangeSet.ofQueue queue collectOrphans) = .ok work ∧
      (store.apply d owner work).HoldsAt ⟨d.role, owner⟩ now.trimmed := by
  obtain ⟨now, run⟩ := hqueue.exists_run hclean
  refine ⟨now, _, run.replay_eq hclean, Database.rowWork_eq hT _, _, rows?_seed_self _ _ _, ?_⟩
  rw [← run.carryOut_ofQueue collectOrphans]
  refine StoredRows.Holds.apply hT hK hstored.keyedById hstored.keeps _ fun hfinds => ?_
  have hshape := hfinds.ne_keyed
  rw [hstored.shape_eq] at hshape
  exact (hstored.identifies hshape).identifiedBy hid

/-- Notes with a gap between them, of which the first goes and another is added. -/
theorem Store.apply_ofQueue_notes :
    ∃ now work,
      replay [.add .unordered "heavy", .remove .unordered "fragile"]
          (.sequence [some "fragile", none, some "urgent"] :
            Aggregate (.ofScalar .text) .unkeyed) = .ok now ∧
      Database.rowWork (T := .ofScalar .text) (K := .unkeyed)
          (ChangeSet.ofQueue [.add .unordered "heavy", .remove .unordered "fragile"] true) =
        .ok work ∧
      (((Store.registerIdentity (.ofScalar .text) {} ⟨"Order.notes"⟩).seed
            ⟨⟨"Order.notes"⟩, .filled 0⟩ (.sequence [.text "fragile", .null, .text "urgent"])).apply
          ⟨⟨"Order.notes"⟩, .sequence, {}⟩ (.filled 0) work).HoldsAt
        ⟨⟨"Order.notes"⟩, .filled 0⟩ now.trimmed := by
  have hT := ElementType.lawful_ofScalar Scalar.restores_text nofun .sequence
  have hadd : Admissible (T := .ofScalar .text) (K := .unkeyed)
      (.sequence [some "fragile", none, some "urgent"]) [.add .unordered "heavy"] :=
    Admissible.nil.snoc rfl (.append _ _)
  have hnames : ∀ op ∈ [(.add .unordered "heavy" : QueuedOp String Empty)],
      ¬op.Names (T := .ofScalar .text) (K := .unkeyed) "fragile" :=
    List.forall_mem_singleton.mpr ((QueuedOp.leaves?_eq_none_iff _ _).mp rfl).2
  exact apply_ofQueue hT.toStorable (hT.storableId nofun) hT.isDirty_self
    Scalar.restores_unkeyed
    (provides_seed hT.toStorable (hT.storableId nofun) {} ⟨⟨"Order.notes"⟩, .sequence, {}⟩
      (.filled 0) (.sequence [some "fragile", none, some "urgent"]) trivial rfl)
    (hadd.snoc rfl (.removeFirst _ _ rfl (by simp) hnames)) true

end LazyCollections
