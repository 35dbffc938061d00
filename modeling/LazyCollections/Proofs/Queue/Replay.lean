import Mathlib.Data.List.Induction
import LazyCollections.Proofs.Aggregate.Identities
import LazyCollections.Proofs.Except
import LazyCollections.Proofs.Queue.Run

/-!
# Queues on any contents

A queue can be replayed on any contents on which each of its operations succeeds, whether or not it
would have been allowed to grow there. This keeps the shape of the contents, and in a set every
element stays under its own identity. Whatever such a queue answers is so once it is replayed: the
operations after the one that decides do not concern the element or the key.

In a sequence an operation at an index may remove any element, so that no element is known to stay.
An element that is not there can only come in by an operation that names it.
-/

namespace LazyCollections

set_option autoImplicit false

variable {T : ElementType} {K : Scalar}

namespace QueuedOp

variable {op : QueuedOp T.Element K.Carrier} {e value : T.Element}

theorem applySet_keeps {items next : SortedMap T.Id T.Element} (h : op.applySet items = .ok next)
    (hitems : (.set items : Aggregate T K).KeyedById) :
    (.set next : Aggregate T K).KeyedById := by
  unfold applySet at h
  split at h
  next =>
    cases h
    exact Aggregate.keyedById_empty .set
  next value =>
    cases h
    exact hitems.insertIfNew value
  next =>
    cases h
    exact hitems.of_subset (SortedMap.erase_subset _ _)
  next old new =>
    obtain ⟨_, -, h⟩ := bind_eq_ok.mp h
    cases h
    exact Aggregate.KeyedById.insert (hitems.of_subset (SortedMap.erase_subset _ _)) new
  next => cases h

theorem apply_keeps {a b : Aggregate T K} (h : op.apply a = .ok b) :
    b.shape = a.shape ∧ (a.KeyedById → b.KeyedById) := by
  cases a with
  | sequence slots =>
    obtain ⟨next, -, h⟩ := bind_eq_ok.mp h
    cases h
    exact ⟨rfl, id⟩
  | set items =>
    obtain ⟨next, hnext, h⟩ := bind_eq_ok.mp h
    cases h
    exact ⟨rfl, applySet_keeps hnext⟩
  | keyed items =>
    obtain ⟨next, -, h⟩ := bind_eq_ok.mp h
    cases h
    exact ⟨rfl, id⟩

theorem get?_applyKeyed {items next : SortedMap K.Carrier T.Element}
    (h : op.applyKeyed items = .ok next) (k : K.Carrier) :
    next.get? k = (op.entry? k).getD (items.get? k) := by
  unfold applyKeyed at h
  split at h
  next =>
    cases h
    rfl
  next j value =>
    cases h
    exact get?_insert_eq_getD items j k value
  next j value =>
    cases h
    exact get?_erase_eq_getD items j k
  next j old new =>
    obtain ⟨_, -, h⟩ := bind_eq_ok.mp h
    cases h
    exact get?_insert_eq_getD items j k new
  next => cases h

theorem mem_applySequence {slots next : List (Option T.Element)} {slot : Option T.Element}
    (h : op.applySequence slots = .ok next) (hslot : slot ∈ next) :
    slot ∈ slots ∨ ∃ value, op.added? = some value ∧ slot = some value := by
  unfold applySequence at h
  split at h
  next =>
    cases h
    cases hslot
  next value =>
    cases h
    rcases List.mem_append.mp hslot with hslot | hslot
    · exact .inl hslot
    · exact .inr ⟨value, rfl, List.mem_singleton.mp hslot⟩
  next i value =>
    split at h
    next hi =>
      cases h
      rcases (List.mem_insertIdx hi).mp hslot with hslot | hslot
      · exact .inr ⟨value, rfl, hslot⟩
      · exact .inl hslot
    next => cases h
  next => cases h
  next value =>
    cases h
    exact .inl (List.mem_of_mem_eraseP hslot)
  next i value =>
    split at h
    next =>
      cases h
      exact .inl (List.mem_of_mem_eraseIdx hslot)
    next => cases h
  next => cases h
  next i old new =>
    obtain ⟨_, -, h⟩ := bind_eq_ok.mp h
    cases h
    rcases List.mem_or_eq_of_mem_set hslot with hslot | hslot
    · exact .inl hslot
    · exact .inr ⟨new, rfl, hslot⟩
  next => cases h

theorem same_eq_false_of_added? (h : op.leaves? e = none) (hvalue : op.added? = some value) :
    T.same value e = false := by
  cases op with
  | clear => cases hvalue
  | add slot added =>
    cases hvalue
    cases hsame : T.same value e <;> simp_all [leaves?]
  | remove slot gone => cases hvalue
  | replace slot old new =>
    cases hvalue
    cases hsame : T.same value e <;> simp_all [leaves?]

theorem has_applySequence {slots next : List (Option T.Element)}
    (h : op.applySequence slots = .ok next) (hleaves : op.leaves? e = none)
    (hslots : (.sequence slots : Aggregate T K).has e = false) :
    (.sequence next : Aggregate T K).has e = false := by
  rw [Aggregate.has_sequence, List.any_eq_false] at hslots ⊢
  intro slot hslot
  rcases mem_applySequence h hslot with hslot | ⟨value, hvalue, rfl⟩
  · exact hslots slot hslot
  · simp [holds, same_eq_false_of_added? hleaves hvalue]

theorem eq_clear_of_membership?_sequence (h : op.membership? .sequence e = some .absent) :
    op = .clear := by
  cases op with
  | clear => rfl
  | add slot value => simp [membership?] at h
  | remove slot value => simp [membership?] at h
  | replace slot old new => simp [membership?] at h

end QueuedOp

variable {queue : List (QueuedOp T.Element K.Carrier)} {result : Aggregate T K}

theorem replay_keeps {a : Aggregate T K} (h : replay queue a = .ok result) (ha : a.KeyedById) :
    result.shape = a.shape ∧ result.KeyedById := by
  induction queue using List.reverseRecOn generalizing result with
  | nil =>
    cases h
    exact ⟨rfl, ha⟩
  | append_singleton queue op ih =>
    obtain ⟨now, hqueue, hop⟩ := replay_snoc.mp h
    obtain ⟨hshape, hnow⟩ := ih hqueue
    obtain ⟨hlast, hresult⟩ := op.apply_keeps hop
    exact ⟨hlast.trans hshape, hresult hnow⟩

theorem describes_replay {items : SortedMap T.Id T.Element}
    (h : replay queue (.set items) = .ok result) :
    ∃ next, result = .set next ∧ ∀ e, Membership.Describes (queuedMembership .set queue e)
      (items.contains (T.idOf e)) (next.contains (T.idOf e)) := by
  induction queue using List.reverseRecOn generalizing result with
  | nil =>
    cases h
    exact ⟨items, rfl, fun _ => rfl⟩
  | append_singleton queue op ih =>
    obtain ⟨now, hqueue, hop⟩ := replay_snoc.mp h
    obtain ⟨current, rfl, hcurrent⟩ := ih hqueue
    obtain ⟨next, hnext, hop⟩ := bind_eq_ok.mp hop
    cases hop
    refine ⟨next, rfl, fun e => ?_⟩
    rw [queuedMembership_snoc]
    exact (hcurrent e).or (op.describes_applySet hnext e)

theorem get?_replay {items : SortedMap K.Carrier T.Element}
    (h : replay queue (.keyed items) = .ok result) :
    ∃ next, result = .keyed next ∧
      ∀ k, next.get? k = (queuedEntry queue k).getD (items.get? k) := by
  induction queue using List.reverseRecOn generalizing result with
  | nil =>
    cases h
    exact ⟨items, rfl, fun _ => rfl⟩
  | append_singleton queue op ih =>
    obtain ⟨now, hqueue, hop⟩ := replay_snoc.mp h
    obtain ⟨current, rfl, hcurrent⟩ := ih hqueue
    obtain ⟨next, hnext, hop⟩ := bind_eq_ok.mp hop
    cases hop
    refine ⟨next, rfl, fun k => ?_⟩
    rw [queuedEntry_snoc, Option.getD_or, ← hcurrent k]
    exact op.get?_applyKeyed hnext k

/-- After a clear no element of a sequence comes back unless an operation names it. -/
theorem has_replay {slots : List (Option T.Element)}
    (h : replay queue (.sequence slots) = .ok result) :
    ∃ next, result = .sequence next ∧ ∀ e, queuedMembership .sequence queue e = some .absent →
      (.sequence next : Aggregate T K).has e = false := by
  induction queue using List.reverseRecOn generalizing result with
  | nil =>
    cases h
    exact ⟨slots, rfl, nofun⟩
  | append_singleton queue op ih =>
    obtain ⟨now, hqueue, hop⟩ := replay_snoc.mp h
    obtain ⟨current, rfl, hcurrent⟩ := ih hqueue
    obtain ⟨next, hnext, hop⟩ := bind_eq_ok.mp hop
    cases hop
    refine ⟨next, rfl, fun e habsent => ?_⟩
    rw [queuedMembership_snoc] at habsent
    cases hlast : op.membership? .sequence e with
    | none =>
      rw [hlast, Option.none_or] at habsent
      exact op.has_applySequence hnext ((op.membership?_sequence_eq_none e).mp hlast)
        (hcurrent e habsent)
    | some answer =>
      rw [hlast, Option.some_or] at habsent
      obtain rfl := op.eq_clear_of_membership?_sequence (hlast.trans habsent)
      cases hnext
      rfl

/-- What a queue answers is so in the contents that it leads to. In a set or a sequence an element
that it calls present is there under its identity and one that it calls absent is not, and of a
sequence it never calls any present; under a key stands exactly what it answers. -/
theorem replay_answers_exact {queue : List (QueuedOp T.Element K.Carrier)}
    {contents result : Aggregate T K} (hkeyed : contents.KeyedById)
    (hreplay : replay queue contents = .ok result) :
    (contents.shape ≠ .keyed → ∀ e,
      (queuedMembership contents.shape queue e = some .present → T.idOf e ∈ result.ids) ∧
      (queuedMembership contents.shape queue e = some .absent → T.idOf e ∉ result.ids)) ∧
    (contents.shape = .sequence → ∀ e,
      queuedMembership contents.shape queue e ≠ some .present) ∧
    (contents.shape = .keyed → ∃ items, result = .keyed items ∧
      ∀ k answer, queuedEntry queue k = some answer → items.get? k = answer) := by
  obtain ⟨-, hresult⟩ := replay_keeps hreplay hkeyed
  cases contents with
  | sequence slots =>
    obtain ⟨next, rfl, habsent⟩ := has_replay hreplay
    refine ⟨fun _ e => ⟨?_, ?_⟩, fun _ => queuedMembership_sequence_ne_present queue, nofun⟩
    · intro hpresent
      exact absurd hpresent (queuedMembership_sequence_ne_present queue e)
    · intro hqueue hmem
      rw [← Aggregate.has_iff, habsent e hqueue] at hmem
      cases hmem
  | set items =>
    obtain ⟨next, rfl, hdescribes⟩ := describes_replay hreplay
    refine ⟨fun _ e => ?_, nofun, nofun⟩
    have h := hdescribes e
    rw [← Aggregate.has_iff, Aggregate.has_set hresult]
    constructor
    · intro hpresent
      rwa [show queuedMembership .set queue e = _ from hpresent] at h
    · intro habsent
      rw [show queuedMembership .set queue e = _ from habsent] at h
      exact Bool.eq_false_iff.mp h
  | keyed items =>
    obtain ⟨next, rfl, hget⟩ := get?_replay hreplay
    refine ⟨fun h => absurd rfl h, nofun, fun _ => ⟨next, rfl, fun k answer hanswer => ?_⟩⟩
    rw [hget, hanswer, Option.getD_some]

/-- A part that is replaced and comes back, and one that goes. -/
theorem replay_answers_exact_parts :
    ∃ result,
      replay (T := Part.elementType) (K := .unkeyed)
          [.replace .unordered ⟨.filled 1, "bolt", 1⟩ ⟨.filled 3, "screw", 1⟩,
            .remove .unordered ⟨.filled 2, "", 0⟩, .add .unordered ⟨.filled 1, "bolt", 2⟩]
          (.setOfFirst [⟨.filled 1, "bolt", 1⟩, ⟨.filled 2, "bolt", 1⟩]) = .ok result ∧
      .filled 1 ∈ result.ids ∧ .filled 2 ∉ result.ids ∧ .filled 3 ∈ result.ids := by
  generalize hreplay : replay (T := Part.elementType) (K := .unkeyed) _ _ = outcome
  have hok : outcome = .ok (.setOfFirst [⟨.filled 1, "bolt", 2⟩, ⟨.filled 3, "screw", 1⟩]) :=
    hreplay ▸ rfl
  rw [hok] at hreplay
  have h := (replay_answers_exact (Aggregate.keyedById_setOfFirst _) hreplay).1 nofun
  exact ⟨_, hok, (h ⟨.filled 1, "", 0⟩).1 rfl, (h ⟨.filled 2, "", 0⟩).2 rfl,
    (h ⟨.filled 3, "", 0⟩).1 rfl⟩

end LazyCollections
