import LazyCollections.Proofs.Changes.CarryOut
import LazyCollections.Proofs.Element.Laws
import LazyCollections.Proofs.Except
import LazyCollections.Proofs.SortedMap.Folds
import LazyCollections.Queue.Answers

/-!
# Queues that fit the contents

A collection queues an operation only if it knows what the operation does: an added element is
absent, a removed or replaced one is there. In a sequence an element may be there several times,
and its removal is queued only if nothing else in the queue concerns it. Queues that grow in this
way can be replayed, and their answers are right.
-/

namespace LazyCollections

set_option autoImplicit false

variable {T : ElementType} {K : Scalar}

theorem replay_snoc {queue : List (QueuedOp T.Element K.Carrier)}
    {op : QueuedOp T.Element K.Carrier} {a b : Aggregate T K} :
    replay (queue ++ [op]) a = .ok b ↔ ∃ now, replay queue a = .ok now ∧ op.apply now = .ok b := by
  rw [replay, List.foldlM_append, bind_eq_ok]
  simp [replay]

/-- The operations that may be queued after a queue which has led to some contents, with the
contents they lead to. -/
inductive QueueStep (queue : List (QueuedOp T.Element K.Carrier)) :
    Aggregate T K → QueuedOp T.Element K.Carrier → Aggregate T K → Prop
  | clear (a : Aggregate T K) : QueueStep queue a .clear a.cleared
  | append (slots : List (Option T.Element)) (e : T.Element) :
    QueueStep queue (.sequence slots) (.add .unordered e) (.sequence (slots ++ [some e]))
  | removeFirst (slots : List (Option T.Element)) (e : T.Element)
    (h : queuedMembership .sequence queue e = none) :
    QueueStep queue (.sequence slots) (.remove .unordered e)
      (.sequence (QueuedOp.removeFirst e slots))
  | insert (items : SortedMap T.Id T.Element) (e : T.Element)
    (h : items.get? (T.idOf e) = none) :
    QueueStep queue (.set items) (.add .unordered e) (.set (items.insert (T.idOf e) e))
  | erase (items : SortedMap T.Id T.Element) (e : T.Element)
    (h : items.get? (T.idOf e) ≠ none) :
    QueueStep queue (.set items) (.remove .unordered e) (.set (items.erase (T.idOf e)))
  | put (items : SortedMap K.Carrier T.Element) (k : K.Carrier) (e : T.Element)
    (h : items.get? k = none) :
    QueueStep queue (.keyed items) (.add (.key k) e) (.keyed (items.insert k e))
  | replace (items : SortedMap K.Carrier T.Element) (k : K.Carrier) (old e : T.Element)
    (h : items.get? k = some old) :
    QueueStep queue (.keyed items) (.replace (.key k) old e) (.keyed (items.insert k e))
  | take (items : SortedMap K.Carrier T.Element) (k : K.Carrier) (old : T.Element)
    (h : items.get? k = some old) :
    QueueStep queue (.keyed items) (.remove (.key k) old) (.keyed (items.erase k))

/-- Queues that have grown step by step from what is stored, with the contents they lead to. -/
inductive QueueRun (stored : Aggregate T K) :
    List (QueuedOp T.Element K.Carrier) → Aggregate T K → Prop
  | nil : QueueRun stored [] stored
  | snoc {queue : List (QueuedOp T.Element K.Carrier)} {now next : Aggregate T K}
    {op : QueuedOp T.Element K.Carrier} (run : QueueRun stored queue now)
    (step : QueueStep queue now op next) : QueueRun stored (queue ++ [op]) next

namespace QueueStep

variable {queue : List (QueuedOp T.Element K.Carrier)} {now next : Aggregate T K}
variable {op : QueuedOp T.Element K.Carrier}

theorem shape_eq (step : QueueStep queue now op next) : next.shape = now.shape := by
  cases step with
  | clear => exact Aggregate.shape_cleared now
  | _ => rfl

theorem apply_eq (hclean : ∀ e, T.isDirty e e = false) (step : QueueStep queue now op next) :
    op.apply now = .ok next := by
  cases step with
  | clear => cases now <;> rfl
  | append slots e => rfl
  | removeFirst slots e h => rfl
  | insert items e h =>
    change Except.ok (Aggregate.set (items.insertIfNew (T.idOf e) e)) = _
    rw [SortedMap.insertIfNew_of_none h]
  | erase items e h => rfl
  | put items k e h => rfl
  | replace items k old e h =>
    have hold : QueuedOp.expectOld old (some old) = .ok () := by
      simp [QueuedOp.expectOld, hclean]
    simp only [QueuedOp.apply, QueuedOp.applyKeyed, h, hold]
    rfl
  | take items k old h => rfl

theorem keyedById (step : QueueStep queue now op next) (hnow : now.KeyedById) :
    next.KeyedById := by
  cases step with
  | clear => exact Aggregate.keyedById_empty now.shape
  | insert items e h => exact hnow.insert e
  | erase items e h => exact hnow.of_subset (SortedMap.erase_subset _ _)
  | _ => trivial

end QueueStep

namespace QueueRun

variable {queue : List (QueuedOp T.Element K.Carrier)} {stored now : Aggregate T K}

theorem shape_eq (run : QueueRun stored queue now) : now.shape = stored.shape := by
  induction run with
  | nil => rfl
  | snoc _ step ih => exact step.shape_eq.trans ih

theorem eq_of_isEmpty (run : QueueRun stored queue now) (h : queue.isEmpty = true) :
    now = stored := by
  cases run with
  | nil => rfl
  | snoc run step => simp at h

theorem replay_eq (hclean : ∀ e, T.isDirty e e = false) (run : QueueRun stored queue now) :
    replay queue stored = .ok now := by
  induction run with
  | nil => rfl
  | snoc _ step ih => exact replay_snoc.mpr ⟨_, ih, step.apply_eq hclean⟩

theorem keyedById (run : QueueRun stored queue now) (hstored : stored.KeyedById) :
    now.KeyedById := by
  induction run with
  | nil => exact hstored
  | snoc _ step ih => exact step.keyedById ih

end QueueRun

/-- What an answer about an element says, given whether the element was there before. -/
def Membership.Describes (answer : Option Membership) (before now : Bool) : Prop :=
  match answer with
  | some .present => now = true
  | some .absent => now = false
  | some .unknown => True
  | none => now = before

/-- The answer about one more step decides, unless the step leaves things as they were. -/
theorem Membership.Describes.or {earlier later : Option Membership} {before now next : Bool}
    (h : Describes earlier before now) (hlater : Describes later now next) :
    Describes (later.or earlier) before next := by
  cases later with
  | none =>
    have heq : next = now := hlater
    rwa [Option.none_or, heq]
  | some answer => cases answer <;> exact hlater

theorem queuedMembership_snoc (shape : Shape) (queue : List (QueuedOp T.Element K.Carrier))
    (op : QueuedOp T.Element K.Carrier) (e : T.Element) :
    queuedMembership shape (queue ++ [op]) e =
      (op.membership? shape e).or (queuedMembership shape queue e) := by
  rw [queuedMembership, List.reverse_append, List.reverse_singleton, List.singleton_append,
    List.findSome?_cons]
  cases op.membership? shape e <;> rfl

theorem queuedMembership_sequence_ne_present (queue : List (QueuedOp T.Element K.Carrier))
    (e : T.Element) : queuedMembership .sequence queue e ≠ some .present := by
  intro h
  obtain ⟨op, _, hop⟩ := List.exists_of_findSome?_eq_some h
  cases op with
  | clear => cases hop
  | add slot value => simp [QueuedOp.membership?] at hop
  | remove slot value => simp [QueuedOp.membership?] at hop
  | replace slot old new => simp [QueuedOp.membership?] at hop

theorem QueuedOp.membership?_sequence_eq_none (op : QueuedOp T.Element K.Carrier)
    (e : T.Element) : op.membership? .sequence e = none ↔ op.leaves? e = none := by
  cases op with
  | clear => simp [membership?, leaves?]
  | _ => exact Option.map_eq_none_iff

theorem queuedEntry_snoc (queue : List (QueuedOp T.Element K.Carrier))
    (op : QueuedOp T.Element K.Carrier) (k : K.Carrier) :
    queuedEntry (queue ++ [op]) k = (op.entry? k).or (queuedEntry queue k) := by
  rw [queuedEntry, List.reverse_append, List.reverse_singleton, List.singleton_append,
    List.findSome?_cons]
  cases op.entry? k <;> rfl

theorem get?_insert_eq_getD (items : SortedMap K.Carrier T.Element) (j k : K.Carrier)
    (e : T.Element) :
    (items.insert j e).get? k = (if j = k then some (some e) else none).getD (items.get? k) := by
  by_cases hjk : j = k
  · simp [hjk]
  · simp [hjk, SortedMap.get?_insert_of_ne items e hjk]

theorem get?_erase_eq_getD (items : SortedMap K.Carrier T.Element) (j k : K.Carrier) :
    (items.erase j).get? k = (if j = k then some none else none).getD (items.get? k) := by
  by_cases hjk : j = k
  · simp [hjk]
  · simp [hjk, SortedMap.get?_erase_of_ne items hjk]

theorem QueuedOp.describes_applySet (op : QueuedOp T.Element K.Carrier)
    {items next : SortedMap T.Id T.Element} (h : op.applySet items = .ok next) (e : T.Element) :
    Membership.Describes (op.leaves? e) (items.contains (T.idOf e))
      (next.contains (T.idOf e)) := by
  unfold applySet at h
  split at h
  next =>
    cases h
    rfl
  next value =>
    cases h
    by_cases hsame : T.idOf value = T.idOf e
    · simp [leaves?, hsame, Membership.Describes, SortedMap.contains, SortedMap.get?_insertIfNew]
    · simp [leaves?, hsame, Membership.Describes, SortedMap.contains, SortedMap.get?_insertIfNew]
  next value =>
    cases h
    by_cases hsame : T.idOf value = T.idOf e
    · simp [leaves?, hsame, Membership.Describes, SortedMap.contains]
    · simp [leaves?, hsame, Membership.Describes, SortedMap.contains,
        SortedMap.get?_erase_of_ne items hsame]
  next old new =>
    obtain ⟨_, -, h⟩ := bind_eq_ok.mp h
    cases h
    -- The new element decides, also where the old one has its identity.
    by_cases hnew : T.idOf new = T.idOf e
    · simp [leaves?, hnew, Membership.Describes, SortedMap.contains]
    · by_cases hold : T.idOf old = T.idOf e
      · simp [leaves?, hnew, hold, Membership.Describes, SortedMap.contains,
          SortedMap.get?_insert_of_ne _ new hnew]
      · simp [leaves?, hnew, hold, Membership.Describes, SortedMap.contains,
          SortedMap.get?_insert_of_ne _ new hnew, SortedMap.get?_erase_of_ne items hold]
  next => cases h

theorem any_eraseP_of_disjoint {α : Type} {p q : α → Bool} (h : ∀ x, p x = true → q x = false)
    (xs : List α) : (xs.eraseP p).any q = xs.any q := by
  induction xs with
  | nil => rfl
  | cons x xs ih =>
    cases hp : p x with
    | true => rw [List.eraseP_cons_of_pos hp, List.any_cons, h x hp, Bool.false_or]
    | false => rw [List.eraseP_cons_of_neg (by simp [hp]), List.any_cons, List.any_cons, ih]

theorem holds_eq_false_of_ne {d e : T.Element} (hne : T.same d e = false)
    (slot : Option T.Element) (h : QueuedOp.holds T d slot = true) :
    QueuedOp.holds T e slot = false := by
  cases slot with
  | none => rfl
  | some found =>
    have hfound : T.idOf found = T.idOf d := ElementType.same_iff.mp h
    have hde : T.idOf d ≠ T.idOf e := fun heq => by simp [ElementType.same, heq] at hne
    simp [QueuedOp.holds, ElementType.same, hfound, hde]

namespace QueueStep

variable {queue : List (QueuedOp T.Element K.Carrier)} {now next : Aggregate T K}
variable {op : QueuedOp T.Element K.Carrier}

theorem describes (step : QueueStep queue now op next) (hshape : now.shape ≠ .keyed)
    (hnow : now.KeyedById) (e : T.Element) :
    Membership.Describes (op.membership? now.shape e) (now.has e) (next.has e) := by
  have hnext := step.keyedById hnow
  cases step with
  | clear => cases now <;> rfl
  | append slots d =>
    cases hsame : T.same d e with
    | true => simp [QueuedOp.membership?, QueuedOp.leaves?, hsame, Membership.Describes,
        Aggregate.shape]
    | false =>
      simp [QueuedOp.membership?, QueuedOp.leaves?, hsame, Membership.Describes,
        Aggregate.shape, Aggregate.has_sequence, QueuedOp.holds]
  | removeFirst slots d h =>
    cases hsame : T.same d e with
    | true => simp [QueuedOp.membership?, QueuedOp.leaves?, hsame, Membership.Describes,
        Aggregate.shape]
    | false =>
      have hany := any_eraseP_of_disjoint (holds_eq_false_of_ne hsame) slots
      simpa [QueuedOp.membership?, QueuedOp.leaves?, hsame, Membership.Describes,
        Aggregate.shape, Aggregate.has_sequence, QueuedOp.removeFirst] using hany
  | insert items d h =>
    rw [Aggregate.has_set hnow, Aggregate.has_set hnext]
    let op : QueuedOp T.Element K.Carrier := .add .unordered d
    have happly : op.applySet items = .ok (items.insert (T.idOf d) d) :=
      congrArg Except.ok (SortedMap.insertIfNew_of_none h)
    exact op.describes_applySet happly e
  | erase items d h =>
    rw [Aggregate.has_set hnow, Aggregate.has_set hnext]
    let op : QueuedOp T.Element K.Carrier := .remove .unordered d
    have happly : op.applySet items = .ok (items.erase (T.idOf d)) := rfl
    exact op.describes_applySet happly e
  | put items k d h => exact absurd rfl hshape
  | replace items k old d h => exact absurd rfl hshape
  | take items k old h => exact absurd rfl hshape

end QueueStep

namespace QueueRun

variable {queue : List (QueuedOp T.Element K.Carrier)} {stored now : Aggregate T K}

theorem describes (run : QueueRun stored queue now) (hshape : stored.shape ≠ .keyed)
    (hstored : stored.KeyedById) (e : T.Element) :
    Membership.Describes (queuedMembership stored.shape queue e) (stored.has e) (now.has e) := by
  induction run with
  | nil => rfl
  | @snoc queue now next op run step ih =>
    have hlast := step.describes (by rwa [run.shape_eq]) (run.keyedById hstored) e
    rw [run.shape_eq] at hlast
    rw [queuedMembership_snoc]
    exact ih.or hlast

theorem queuedEntry_spec {items : SortedMap K.Carrier T.Element}
    (run : QueueRun stored queue now) (hstored : stored = .keyed items) (k : K.Carrier) :
    ∃ current, now = .keyed current ∧
      current.get? k = (queuedEntry queue k).getD (items.get? k) := by
  induction run with
  | nil => exact ⟨items, hstored, rfl⟩
  | @snoc queue now next op run step ih =>
    obtain ⟨current, rfl, hget⟩ := ih
    rw [queuedEntry_snoc, Option.getD_or, ← hget]
    cases step with
    | clear => exact ⟨∅, rfl, rfl⟩
    | put _ j e h => exact ⟨_, rfl, get?_insert_eq_getD current j k e⟩
    | replace _ j old e h => exact ⟨_, rfl, get?_insert_eq_getD current j k e⟩
    | take _ j old h => exact ⟨_, rfl, get?_erase_eq_getD current j k⟩

end QueueRun

end LazyCollections
