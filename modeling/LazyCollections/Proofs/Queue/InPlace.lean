import LazyCollections.Proofs.Aggregate.Places
import LazyCollections.Proofs.Queue.Replay

/-!
# Operations as a whole

An operation that is carried out on contents in place may take several steps, and takes all of them
or none: what could refuse it is asked first, so that refused contents are as they were. It is
refused for a violated invariant only.

Sets and keyed collections take elements and let them go at every slot of their kind, whatever they
hold, and sequences do so up to their end. A replacement has to find at its place the element that
it was queued for, in an unchanged state.
-/

namespace LazyCollections

set_option autoImplicit false

variable {T : ElementType} {K : Scalar}

/-- A slot fits a shape if it is of the kind that the places of such contents have. -/
def Slot.Fits {κ : Type} (slot : Slot κ) : Shape → Prop
  | .sequence => ∃ i, slot = .index i
  | .set => slot = .unordered
  | .keyed => ∃ k, slot = .key k

def Error.IsViolation (error : Error) : Prop :=
  ∃ cause, error = .invariantViolation cause

theorem Error.isViolation (cause : InvariantCause) : (invariantViolation cause).IsViolation :=
  ⟨cause, rfl⟩

namespace QueuedOp

variable {op : QueuedOp T.Element K.Carrier} {slot : Slot K.Carrier} {value old new : T.Element}
variable {slots : List (Option T.Element)} {a : Aggregate T K}

theorem expectOld_eq_ok {current : Option T.Element} :
    expectOld old current = .ok () ↔
      ∃ found, current = some found ∧ T.idOf found = T.idOf old ∧ T.isDirty found old = false := by
  cases current with
  | none => simp [expectOld]
  | some found =>
    rw [expectOld]
    split
    next h => simpa using h
    next h => simpa using h

theorem failsOnly_expectOld (old : T.Element) (current : Option T.Element) :
    FailsOnly Error.IsViolation (expectOld old current) := by
  cases current with
  | none => exact .error (Error.isViolation _)
  | some found => exact .ite (.ok ()) (.error (Error.isViolation _))

theorem failsOnly_applySequence (op : QueuedOp T.Element K.Carrier)
    (slots : List (Option T.Element)) : FailsOnly Error.IsViolation (op.applySequence slots) := by
  unfold applySequence
  split
  next => exact .ok _
  next => exact .ok _
  next => exact .ite (.ok _) (.error (Error.isViolation _))
  next => exact .error (Error.isViolation _)
  next => exact .ok _
  next => exact .ite (.ok _) (.error (Error.isViolation _))
  next => exact .error (Error.isViolation _)
  next => exact (failsOnly_expectOld _ _).bind fun _ => .ok _
  next => exact .error (Error.isViolation _)

theorem failsOnly_applySet (op : QueuedOp T.Element K.Carrier)
    (items : SortedMap T.Id T.Element) :
    FailsOnly Error.IsViolation (op.applySet items) := by
  unfold applySet
  split
  next => exact .ok _
  next => exact .ok _
  next => exact .ok _
  next => exact (failsOnly_expectOld _ _).bind fun _ => .ok _
  next => exact .error (Error.isViolation _)

theorem failsOnly_applyKeyed (op : QueuedOp T.Element K.Carrier)
    (items : SortedMap K.Carrier T.Element) :
    FailsOnly Error.IsViolation (op.applyKeyed items) := by
  unfold applyKeyed
  split
  next => exact .ok _
  next => exact .ok _
  next => exact .ok _
  next => exact (failsOnly_expectOld _ _).bind fun _ => .ok _
  next => exact .error (Error.isViolation _)

theorem failsOnly_apply (op : QueuedOp T.Element K.Carrier) (a : Aggregate T K) :
    FailsOnly Error.IsViolation (op.apply a) := by
  cases a with
  | sequence slots => exact (failsOnly_applySequence op slots).bind fun _ => .ok _
  | set items => exact (failsOnly_applySet op items).bind fun _ => .ok _
  | keyed items => exact (failsOnly_applyKeyed op items).bind fun _ => .ok _

def SucceedsOn (op : QueuedOp T.Element K.Carrier) (a : Aggregate T K) : Prop :=
  ∃ b, op.apply a = .ok b

theorem succeedsOn_clear (a : Aggregate T K) :
    (clear : QueuedOp T.Element K.Carrier).SucceedsOn a := by
  cases a with
  | sequence slots => exact ⟨_, rfl⟩
  | set items => exact ⟨_, rfl⟩
  | keyed items => exact ⟨_, rfl⟩

/-- In a set or a keyed collection the slot decides, and not what the collection holds. -/
theorem succeedsOn_iff_fits (hshape : a.shape ≠ .sequence)
    (hop : op = .add slot value ∨ op = .remove slot value) :
    op.SucceedsOn a ↔ slot.Fits a.shape := by
  cases a with
  | sequence slots => exact absurd rfl hshape
  | set items =>
    cases slot with
    | unordered => rcases hop with rfl | rfl <;> exact iff_of_true ⟨_, rfl⟩ rfl
    | index i => rcases hop with rfl | rfl <;> exact iff_of_false nofun nofun
    | key k => rcases hop with rfl | rfl <;> exact iff_of_false nofun nofun
  | keyed items =>
    cases slot with
    | unordered => rcases hop with rfl | rfl <;> exact iff_of_false nofun nofun
    | index i => rcases hop with rfl | rfl <;> exact iff_of_false nofun nofun
    | key k => rcases hop with rfl | rfl <;> exact iff_of_true ⟨_, rfl⟩ ⟨k, rfl⟩

theorem succeedsOn_add_sequence_iff :
    (add slot value).SucceedsOn (.sequence slots : Aggregate T K) ↔
      slot = .unordered ∨ ∃ i ≤ slots.length, slot = .index i := by
  cases slot with
  | unordered => exact iff_of_true ⟨_, rfl⟩ (.inl rfl)
  | index i =>
    have h : (add (.index i) value).SucceedsOn (.sequence slots : Aggregate T K) ↔
        i ≤ slots.length := exists_bind_ok_eq_ok.trans exists_ite_eq_ok
    simpa using h
  | key k => exact iff_of_false nofun (by simp)

theorem succeedsOn_remove_sequence_iff :
    (remove slot value).SucceedsOn (.sequence slots : Aggregate T K) ↔
      slot = .unordered ∨ ∃ i < slots.length, slot = .index i := by
  cases slot with
  | unordered => exact iff_of_true ⟨_, rfl⟩ (.inl rfl)
  | index i =>
    have h : (remove (.index i) value).SucceedsOn (.sequence slots : Aggregate T K) ↔
        i < slots.length := exists_bind_ok_eq_ok.trans exists_ite_eq_ok
    simpa using h
  | key k => exact iff_of_false nofun (by simp)

/-- A replacement whose slot fits asks for the element at its place before anything else. -/
theorem apply_replace_of_fits (hslot : slot.Fits a.shape) (old new : T.Element) :
    ∃ b, (replace slot old new).apply a =
      (expectOld old (a.at? (.of slot old)) >>= fun _ => .ok b) := by
  cases a with
  | sequence slots =>
    obtain ⟨i, rfl⟩ := hslot
    refine ⟨.sequence (slots.set i (some new)), ?_⟩
    simp only [apply, applySequence, Place.of, Aggregate.at?_index]
    cases expectOld old slots[i]?.join <;> rfl
  | set items =>
    obtain rfl : slot = .unordered := hslot
    refine ⟨.set ((items.erase (T.idOf old)).insert (T.idOf new) new), ?_⟩
    simp only [apply, applySet, Place.of, Aggregate.at?_identity]
    cases expectOld old (items.get? (T.idOf old)) <;> rfl
  | keyed items =>
    obtain ⟨k, rfl⟩ := hslot
    refine ⟨.keyed (items.insert k new), ?_⟩
    simp only [apply, applyKeyed, Place.of, Aggregate.at?_key]
    cases expectOld old (items.get? k) <;> rfl

theorem apply_replace_of_not_fits (hslot : ¬slot.Fits a.shape) (old new : T.Element) :
    (replace slot old new).apply a =
      .error (.invariantViolation (.unfitOperation .replace a.shape)) := by
  cases a with
  | sequence slots =>
    cases slot with
    | index i => exact absurd ⟨i, rfl⟩ hslot
    | unordered => rfl
    | key k => rfl
  | set items =>
    cases slot with
    | unordered => exact absurd rfl hslot
    | index i => rfl
    | key k => rfl
  | keyed items =>
    cases slot with
    | key k => exact absurd ⟨k, rfl⟩ hslot
    | unordered => rfl
    | index i => rfl

theorem succeedsOn_replace_iff :
    (replace slot old new).SucceedsOn a ↔
      slot.Fits a.shape ∧ ∃ found, a.at? (.of slot old) = some found ∧
        T.idOf found = T.idOf old ∧ T.isDirty found old = false := by
  rw [← expectOld_eq_ok, SucceedsOn]
  by_cases hslot : slot.Fits a.shape
  · obtain ⟨b, happly⟩ := apply_replace_of_fits hslot old new
    rw [happly]
    constructor
    · rintro ⟨_, h⟩
      obtain ⟨_, hold, -⟩ := bind_eq_ok.mp h
      exact ⟨hslot, hold⟩
    · rintro ⟨-, hold⟩
      exact ⟨b, bind_eq_ok.mpr ⟨(), hold, rfl⟩⟩
  · rw [apply_replace_of_not_fits hslot]
    exact iff_of_false nofun fun h => hslot h.1

/-- Carries the operation out on contents that are changed in place, step by step: in a set the
element that is replaced goes before the new one comes. -/
def applyInPlace (op : QueuedOp T.Element K.Carrier) : EStateM Error (Aggregate T K) Unit := do
  match op, ← get with
  | clear, a => set a.cleared
  | add slot value, .sequence slots =>
    match slot with
    | .unordered => set (Aggregate.sequence (slots ++ [some value]) : Aggregate T K)
    | .index i =>
      if i ≤ slots.length then
        set (Aggregate.sequence (slots.insertIdx i (some value)) : Aggregate T K)
      else throw (misplaced .add slot slots.length)
    | .key _ => throw (misplaced .add slot slots.length)
  | add .unordered value, .set items =>
    if !items.contains (T.idOf value) then
      set (Aggregate.set (items.insert (T.idOf value) value) : Aggregate T K)
  | add (.key k) value, .keyed items =>
    set (Aggregate.keyed (items.insert k value) : Aggregate T K)
  | remove slot value, .sequence slots =>
    match slot with
    | .unordered =>
      if let some i := slots.findIdx? (holds T value) then
        set (Aggregate.sequence (slots.eraseIdx i) : Aggregate T K)
    | .index i =>
      if i < slots.length then set (Aggregate.sequence (slots.eraseIdx i) : Aggregate T K)
      else throw (misplaced .remove slot slots.length)
    | .key _ => throw (misplaced .remove slot slots.length)
  | remove .unordered value, .set items =>
    set (Aggregate.set (items.erase (T.idOf value)) : Aggregate T K)
  | remove (.key k) _, .keyed items =>
    set (Aggregate.keyed (items.erase k) : Aggregate T K)
  | replace (.index i) old new, .sequence slots =>
    MonadExcept.ofExcept (expectOld old slots[i]?.join)
    set (Aggregate.sequence (slots.set i (some new)) : Aggregate T K)
  | replace .unordered old new, .set items =>
    MonadExcept.ofExcept (expectOld old (items.get? (T.idOf old)))
    let mut items := items.erase (T.idOf old)
    set (Aggregate.set items : Aggregate T K)
    items := items.insert (T.idOf new) new
    set (Aggregate.set items : Aggregate T K)
  | replace (.key k) old new, .keyed items =>
    MonadExcept.ofExcept (expectOld old (items.get? k))
    set (Aggregate.keyed (items.insert k new) : Aggregate T K)
  | op, a => throw (.invariantViolation (.unfitOperation op.kind a.shape))

theorem applyInPlace_sequence (op : QueuedOp T.Element K.Carrier)
    (slots : List (Option T.Element)) :
    op.applyInPlace.run (.sequence slots : Aggregate T K) =
      match op.applySequence slots with
      | .ok next => .ok () (.sequence next)
      | .error error => .error error (.sequence slots) := by
  cases op with
  | clear => rfl
  | add slot value =>
    cases slot with
    | unordered => rfl
    | index i => by_cases hi : i ≤ slots.length <;> simp [applyInPlace, applySequence, hi]
    | key k => rfl
  | remove slot value =>
    cases slot with
    | unordered =>
      -- The first element of the identity goes from the index at which it is found.
      simp only [applyInPlace, applySequence, removeFirst, List.eraseP_eq_eraseIdx,
        EStateM.run_bind, EStateM.run_get]
      cases slots.findIdx? (holds T value) <;> rfl
    | index i => by_cases hi : i < slots.length <;> simp [applyInPlace, applySequence, hi]
    | key k => rfl
  | replace slot old new =>
    cases slot with
    | index i =>
      simp only [applyInPlace, applySequence, EStateM.run_bind, EStateM.run_get, ofExcept_run]
      cases expectOld old slots[i]?.join <;> rfl
    | unordered => rfl
    | key k => rfl

theorem applyInPlace_set (op : QueuedOp T.Element K.Carrier) (items : SortedMap T.Id T.Element) :
    op.applyInPlace.run (.set items) =
      match op.applySet items with
      | .ok next => .ok () (.set next)
      | .error error => .error error (.set items) := by
  cases op with
  | clear => rfl
  | add slot value =>
    cases slot with
    | unordered =>
      simp only [applyInPlace, applySet, SortedMap.insertIfNew, EStateM.run_bind, EStateM.run_get]
      cases items.contains (T.idOf value) <;> rfl
    | index i => rfl
    | key k => rfl
  | remove slot value => cases slot <;> rfl
  | replace slot old new =>
    cases slot with
    | unordered =>
      simp only [applyInPlace, applySet, EStateM.run_bind, EStateM.run_get, ofExcept_run]
      cases expectOld old (items.get? (T.idOf old)) <;> rfl
    | index i => rfl
    | key k => rfl

theorem applyInPlace_keyed (op : QueuedOp T.Element K.Carrier)
    (items : SortedMap K.Carrier T.Element) :
    op.applyInPlace.run (.keyed items : Aggregate T K) =
      match op.applyKeyed items with
      | .ok next => .ok () (.keyed next)
      | .error error => .error error (.keyed items) := by
  cases op with
  | clear => rfl
  | add slot value => cases slot <;> rfl
  | remove slot value => cases slot <;> rfl
  | replace slot old new =>
    cases slot with
    | key k =>
      simp only [applyInPlace, applyKeyed, EStateM.run_bind, EStateM.run_get, ofExcept_run]
      cases expectOld old (items.get? k) <;> rfl
    | unordered => rfl
    | index i => rfl

/-- In place an operation comes to the same, and a refused one has not changed anything. -/
theorem applyInPlace_run (op : QueuedOp T.Element K.Carrier) (a : Aggregate T K) :
    op.applyInPlace.run a =
      match op.apply a with
      | .ok b => .ok () b
      | .error error => .error error a := by
  cases a with
  | sequence slots =>
    rw [applyInPlace_sequence, apply]
    cases op.applySequence slots <;> rfl
  | set items =>
    rw [applyInPlace_set, apply]
    cases op.applySet items <;> rfl
  | keyed items =>
    rw [applyInPlace_keyed, apply]
    cases op.applyKeyed items <;> rfl

/-- An operation in place either succeeds, which keeps the shape and every element of a set under
its own identity, or is refused for a violated invariant and leaves the contents as they were.
Clearing always succeeds. Adding and removing succeed in a set or a keyed collection exactly if the
slot fits, and in a sequence at every index that it has, adding also at its end. Replacing succeeds
exactly if the slot fits and its place holds the expected element in an unchanged state. -/
theorem apply_allOrNothing (a : Aggregate T K) :
    (∀ op : QueuedOp T.Element K.Carrier,
      (∃ b, op.apply a = .ok b ∧ op.applyInPlace.run a = .ok () b ∧ b.shape = a.shape ∧
        (a.KeyedById → b.KeyedById)) ∨
      ∃ cause, op.apply a = .error (.invariantViolation cause) ∧
        op.applyInPlace.run a = .error (.invariantViolation cause) a) ∧
    (clear : QueuedOp T.Element K.Carrier).SucceedsOn a ∧
    (∀ slot value, a.shape ≠ .sequence →
      ((add slot value).SucceedsOn a ↔ slot.Fits a.shape) ∧
      ((remove slot value).SucceedsOn a ↔ slot.Fits a.shape)) ∧
    (∀ slot value, a.shape = .sequence →
      ((add slot value).SucceedsOn a ↔ slot = .unordered ∨ ∃ i ≤ a.size, slot = .index i) ∧
      ((remove slot value).SucceedsOn a ↔ slot = .unordered ∨ ∃ i < a.size, slot = .index i)) ∧
    ∀ slot old new, (replace slot old new).SucceedsOn a ↔
      slot.Fits a.shape ∧ ∃ found, a.at? (.of slot old) = some found ∧
        T.idOf found = T.idOf old ∧ T.isDirty found old = false := by
  refine ⟨fun op => ?_, succeedsOn_clear a, fun slot value hshape => ?_,
    fun slot value hshape => ?_, fun slot old new => succeedsOn_replace_iff⟩
  · rw [applyInPlace_run]
    cases happly : op.apply a with
    | ok b =>
      obtain ⟨hshape, hkeyed⟩ := op.apply_keeps happly
      exact .inl ⟨b, rfl, rfl, hshape, hkeyed⟩
    | error error =>
      obtain ⟨cause, rfl⟩ := op.failsOnly_apply a error happly
      exact .inr ⟨cause, rfl, rfl⟩
  · exact ⟨succeedsOn_iff_fits hshape (.inl rfl), succeedsOn_iff_fits hshape (.inr rfl)⟩
  · obtain ⟨slots, rfl⟩ := Aggregate.exists_eq_sequence hshape
    exact ⟨succeedsOn_add_sequence_iff, succeedsOn_remove_sequence_iff⟩

/-- A part that comes in the place of two, of which neither is found afterwards. The end of a
sequence takes an element but has none to let go. -/
theorem apply_allOrNothing_parts :
    (∃ b,
      (replace .unordered ⟨.filled 1, "bolt", 1⟩ ⟨.filled 2, "screw", 1⟩).applyInPlace.run
          (.setOfFirst [⟨.filled 1, "bolt", 1⟩, ⟨.filled 2, "nut", 1⟩] :
            Aggregate Part.elementType .unkeyed) = .ok () b ∧
      b.KeyedById ∧ b.size = 1 ∧
      (∃ cause,
        (replace .unordered ⟨.filled 2, "nut", 1⟩ ⟨.filled 2, "nut", 2⟩).applyInPlace.run b =
          .error (.invariantViolation cause) b) ∧
      (remove .unordered ⟨.filled 1, "bolt", 1⟩).SucceedsOn b) ∧
    (add (.index 1) "urgent").SucceedsOn
      (.sequence [none] : Aggregate (.ofScalar .text) .unkeyed) ∧
    ¬(remove (.index 1) "urgent").SucceedsOn
      (.sequence [none] : Aggregate (.ofScalar .text) .unkeyed) := by
  refine ⟨?_, ?_⟩
  · obtain ⟨hop, -⟩ := apply_allOrNothing (T := Part.elementType) (K := .unkeyed)
      (.setOfFirst [⟨.filled 1, "bolt", 1⟩, ⟨.filled 2, "nut", 1⟩])
    rcases hop (replace .unordered ⟨.filled 1, "bolt", 1⟩ ⟨.filled 2, "screw", 1⟩) with
      ⟨b, happly, hrun, hshape, hkeyed⟩ | ⟨cause, happly, -⟩
    · obtain rfl : .setOfFirst [⟨.filled 2, "screw", 1⟩] = b := Except.ok.inj happly
      obtain ⟨hop, -, hslot, -⟩ := apply_allOrNothing (T := Part.elementType) (K := .unkeyed)
        (.setOfFirst [⟨.filled 2, "screw", 1⟩])
      refine ⟨_, hrun, hkeyed (Aggregate.keyedById_setOfFirst _), rfl, ?_,
        (hslot .unordered _ nofun).2.mpr rfl⟩
      rcases hop (replace .unordered ⟨.filled 2, "nut", 1⟩ ⟨.filled 2, "nut", 2⟩) with
        ⟨_, happly, -⟩ | ⟨cause, -, hrun⟩
      · cases happly
      · exact ⟨cause, hrun⟩
    · cases happly
  · obtain ⟨-, -, -, hslot, -⟩ := apply_allOrNothing (T := .ofScalar .text) (K := .unkeyed)
      (.sequence [none])
    obtain ⟨hadd, hremove⟩ := hslot (.index 1) "urgent" rfl
    refine ⟨hadd.mpr (.inr ⟨1, Nat.le_refl _, rfl⟩), fun h => ?_⟩
    simpa [Aggregate.size] using hremove.mp h

end QueuedOp

end LazyCollections
