import LazyCollections.Proofs.Collection.Upholding

/-!
# What calls are composed of

A call looks at its collection, and otherwise does only a few things, one after the other: it asks
whether changes may be queued, probes, queues, loads, and writes loaded contents. What holds of
these, and of a second step after a first, holds of every call.
-/

namespace LazyCollections

set_option autoImplicit false

variable {T : ElementType} {K : Scalar} {σ : Type} {shape : Shape}

/-- The action is put together from the steps of calls. -/
inductive Action.Composed : {α : Type} → Action T K σ α → Prop
  | pure {α : Type} (a : α) : Composed (Pure.pure a)
  | throw {α : Type} (error : Error) : Composed (MonadExcept.throw error : Action T K σ α)
  | ofExcept {α : Type} (result : Except Error α) : Composed (liftM result)
  | bind {α β : Type} {action : Action T K σ α} {next : α → Action T K σ β}
    (first : Composed action) (second : ∀ a, Composed (next a)) : Composed (action >>= next)
  | collection : Composed Action.collection
  | mayQueue : Composed Action.mayQueue
  | fastSize : Composed Action.fastSize
  | probeMembership (e : T.Element) : Composed (Action.probeMembership e)
  | probeKey (k : K.Carrier) : Composed (Action.probeKey k)
  | enqueue (op : QueuedOp T.Element K.Carrier) : Composed (Action.enqueue op)
  | ensureInitialized : Composed Action.ensureInitialized
  | putContents (contents : Aggregate T K) : Composed (Action.putContents contents)

namespace Action.Composed

theorem map {α β : Type} {action : Action T K σ α} (h : Composed action) (f : α → β) :
    Composed (do return f (← action)) :=
  h.bind fun a => .pure (f a)

theorem loadedContents : Composed (Action.loadedContents : Action T K σ (Aggregate T K)) :=
  ensureInitialized.bind fun _ => collection.map _

theorem writableContents : Composed (Action.writableContents : Action T K σ (Aggregate T K)) :=
  collection.bind fun _ => (ofExcept _).bind fun _ => loadedContents

theorem change {α : Type} {queued loaded : Action T K σ α} (hqueued : Composed queued)
    (hloaded : Composed loaded) :
    Composed (do
      (← Action.collection).checkWritable
      if ← Action.mayQueue then queued else loaded) := by
  refine collection.bind fun _ => (ofExcept _).bind fun _ => mayQueue.bind fun may => ?_
  cases may with
  | true => exact hqueued
  | false => exact hloaded

theorem size : Composed (Action.size : Action T K σ Nat) := by
  refine fastSize.bind fun found => ?_
  cases found with
  | some n => exact .pure n
  | none => exact loadedContents.map _

theorem isEmpty : Composed (Action.isEmpty : Action T K σ Bool) :=
  size.map _

section List

open LazyList

theorem slots : Composed (slots : Action T K σ (List (Option T.Element))) :=
  loadedContents.bind fun _ => ofExcept _

theorem writableSlots : Composed (writableSlots : Action T K σ (List (Option T.Element))) :=
  writableContents.bind fun _ => ofExcept _

theorem listGet (i : Nat) : Composed (get i : Action T K σ (Option T.Element)) := by
  refine slots.bind fun items => ?_
  cases items[i]? with
  | some slot => exact .pure slot
  | none => exact .throw _

theorem indexOf (e : T.Element) : Composed (indexOf e : Action T K σ (Option Nat)) :=
  slots.map _

theorem listContains (e : T.Element) : Composed (contains e : Action T K σ Bool) := by
  refine collection.bind fun c => ?_
  split
  next =>
    refine (probeMembership e).bind fun found => ?_
    cases found with
    | some found => exact .pure found
    | none => exact (indexOf e).map _
  next => exact (indexOf e).map _

theorem push (e : T.Element) : Composed (push e : Action T K σ Unit) :=
  change (enqueue _) (writableSlots.bind fun _ => putContents _)

theorem extend (es : List T.Element) : Composed (extend es : Action T K σ Unit) := by
  induction es with
  | nil => exact .pure ()
  | cons e es ih => exact (push e).bind fun _ => ih

theorem listInsert (i : Nat) (e : T.Element) : Composed (insert i e : Action T K σ Unit) := by
  refine writableSlots.bind fun items => ?_
  split
  next => exact .putContents _
  next => exact .throw _

theorem replaceSlot (i : Nat) (slot : Option T.Element) :
    Composed (replaceSlot i slot : Action T K σ (Option T.Element)) := by
  refine writableSlots.bind fun items => ?_
  cases items[i]? with
  | some previous => exact (putContents _).bind fun _ => .pure previous
  | none => exact .throw _

theorem removeAt (i : Nat) : Composed (removeAt i : Action T K σ (Option T.Element)) := by
  refine writableSlots.bind fun items => ?_
  cases items[i]? with
  | some previous => exact (putContents _).bind fun _ => .pure previous
  | none => exact .throw _

theorem listRemoveLoaded (e : T.Element) : Composed (removeLoaded e : Action T K σ Bool) := by
  refine writableSlots.bind fun items => ?_
  cases position? e items with
  | some i => exact (putContents _).bind fun _ => .pure true
  | none => exact .pure false

theorem listRemove (e : T.Element) : Composed (remove e : Action T K σ Bool) := by
  refine change ((probeMembership e).bind fun found => ?_) (listRemoveLoaded e)
  rcases found with - | (- | -)
  · exact listRemoveLoaded e
  · exact .pure false
  · exact (enqueue _).bind fun _ => .pure true

theorem listClear : Composed (clear : Action T K σ Unit) := by
  refine change (enqueue _) (writableSlots.bind fun items => ?_)
  split
  next => exact .putContents _
  next => exact .pure ()

theorem keepSlots (keep : Option T.Element → Bool) :
    Composed (keepSlots keep : Action T K σ Bool) := by
  refine writableSlots.bind fun items => ?_
  simp only
  split
  next => exact .pure false
  next => exact (putContents _).bind fun _ => .pure true

theorem listCall (call : ListCall T) : Composed (call.run : Action T K σ (Answer T K)) := by
  cases call with
  | size => exact size.map _
  | isEmpty => exact isEmpty.map _
  | get i => exact (listGet i).map _
  | contains e => exact (listContains e).map _
  | indexOf e => exact (indexOf e).map _
  | elements => exact (slots.map _).map _
  | slots => exact slots.map _
  | push e => exact (push e).bind fun _ => .pure _
  | extend es => exact (extend es).bind fun _ => .pure _
  | insert i e => exact (listInsert i e).bind fun _ => .pure _
  | set i e => exact (replaceSlot i _).map _
  | setNull i => exact (replaceSlot i _).map _
  | removeAt i => exact (removeAt i).map _
  | remove e => exact (listRemove e).map _
  | clear => exact listClear.bind fun _ => .pure _
  | retain keep => exact ((keepSlots _).bind fun _ => .pure ()).bind fun _ => .pure _
  | removeAll es => exact (keepSlots _).map _

end List

section Set

open LazySet

theorem setItems : Composed (items : Action T K σ (SortedMap T.Id T.Element)) :=
  loadedContents.bind fun _ => ofExcept _

theorem writableSetItems : Composed (writableItems : Action T K σ (SortedMap T.Id T.Element)) :=
  writableContents.bind fun _ => ofExcept _

theorem setContains (e : T.Element) : Composed (contains e : Action T K σ Bool) := by
  refine collection.bind fun c => ?_
  split
  next =>
    refine (probeMembership e).bind fun found => ?_
    cases found with
    | some found => exact .pure found
    | none => exact setItems.map _
  next => exact setItems.map _

theorem setInsertLoaded (e : T.Element) : Composed (insertLoaded e : Action T K σ Bool) := by
  refine writableSetItems.bind fun items => ?_
  split
  next => exact .pure false
  next => exact (putContents _).bind fun _ => .pure true

theorem setInsert (e : T.Element) : Composed (insert e : Action T K σ Bool) := by
  refine change ((probeMembership e).bind fun found => ?_) (setInsertLoaded e)
  rcases found with - | (- | -)
  · exact setInsertLoaded e
  · exact (enqueue _).bind fun _ => .pure true
  · exact .pure false

theorem setRemoveLoaded (e : T.Element) : Composed (removeLoaded e : Action T K σ Bool) := by
  refine writableSetItems.bind fun items => ?_
  split
  next => exact (putContents _).bind fun _ => .pure true
  next => exact .pure false

theorem setRemove (e : T.Element) : Composed (remove e : Action T K σ Bool) := by
  refine change ((probeMembership e).bind fun found => ?_) (setRemoveLoaded e)
  rcases found with - | (- | -)
  · exact setRemoveLoaded e
  · exact .pure false
  · exact (enqueue _).bind fun _ => .pure true

theorem setClear : Composed (clear : Action T K σ Unit) := by
  refine change (enqueue _) (writableSetItems.bind fun items => ?_)
  split
  next => exact .putContents _
  next => exact .pure ()

theorem setRetain (keep : T.Element → Bool) : Composed (retain keep : Action T K σ Unit) := by
  refine writableSetItems.bind fun items => ?_
  simp only
  split
  next => exact .putContents _
  next => exact .pure ()

theorem setCall (call : SetCall T) : Composed (call.run : Action T K σ (Answer T K)) := by
  cases call with
  | size => exact size.map _
  | isEmpty => exact isEmpty.map _
  | get id => exact (setItems.map _).map _
  | contains e => exact (setContains e).map _
  | elements => exact (setItems.map _).map _
  | insert e => exact (setInsert e).map _
  | remove e => exact (setRemove e).map _
  | clear => exact setClear.bind fun _ => .pure _
  | retain keep => exact (setRetain keep).bind fun _ => .pure _

end Set

section Map

open LazyMap

theorem mapItems : Composed (items : Action T K σ (SortedMap K.Carrier T.Element)) :=
  loadedContents.bind fun _ => ofExcept _

theorem writableMapItems :
    Composed (writableItems : Action T K σ (SortedMap K.Carrier T.Element)) :=
  writableContents.bind fun _ => ofExcept _

theorem containsKey (k : K.Carrier) : Composed (containsKey k : Action T K σ Bool) := by
  refine collection.bind fun c => ?_
  split
  next =>
    refine (probeKey k).bind fun found => ?_
    cases found with
    | some entry => exact .pure entry.isSome
    | none => exact mapItems.map _
  next => exact mapItems.map _

theorem mapInsertLoaded (k : K.Carrier) (e : T.Element) :
    Composed (insertLoaded k e : Action T K σ (Option T.Element)) :=
  writableMapItems.bind fun _ => (putContents _).bind fun _ => .pure _

theorem mapInsert (k : K.Carrier) (e : T.Element) :
    Composed (insert k e : Action T K σ (Option T.Element)) := by
  refine change ((probeKey k).bind fun found => ?_) (mapInsertLoaded k e)
  rcases found with - | - | old
  · exact mapInsertLoaded k e
  · exact (enqueue _).bind fun _ => .pure none
  · exact (enqueue _).bind fun _ => .pure (some old)

theorem mapRemoveLoaded (k : K.Carrier) :
    Composed (removeLoaded k : Action T K σ (Option T.Element)) := by
  refine writableMapItems.bind fun items => ?_
  cases items.get? k with
  | some old => exact (putContents _).bind fun _ => .pure (some old)
  | none => exact .pure none

theorem mapRemove (k : K.Carrier) : Composed (remove k : Action T K σ (Option T.Element)) := by
  refine change ((probeKey k).bind fun found => ?_) (mapRemoveLoaded k)
  rcases found with - | - | old
  · exact mapRemoveLoaded k
  · exact .pure none
  · exact (enqueue _).bind fun _ => .pure (some old)

theorem mapClear : Composed (clear : Action T K σ Unit) := by
  refine change (enqueue _) (writableMapItems.bind fun items => ?_)
  split
  next => exact .putContents _
  next => exact .pure ()

theorem mapCall (call : MapCall T K) : Composed (call.run : Action T K σ (Answer T K)) := by
  cases call with
  | size => exact size.map _
  | isEmpty => exact isEmpty.map _
  | get k => exact (mapItems.map _).map _
  | containsKey k => exact (containsKey k).map _
  | entries => exact (mapItems.map _).map _
  | keys => exact (mapItems.map _).map _
  | values => exact (mapItems.map _).map _
  | insert k e => exact (mapInsert k e).map _
  | remove k => exact (mapRemove k).map _
  | clear => exact mapClear.bind fun _ => .pure _

end Map

theorem call (call : ShapedCall T K shape) :
    Composed (call.run : Action T K σ (Answer T K)) := by
  cases call with
  | ofList call => exact listCall call
  | ofSet call => exact setCall call
  | ofMap call => exact mapCall call

end Action.Composed

end LazyCollections
