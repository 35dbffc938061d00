import LazyCollections.Collection.Call
import LazyCollections.Proofs.Aggregate.Contents
import LazyCollections.Proofs.Collection.Ensures

/-!
# What every call upholds

The calls of lists, sets and maps are made of a few basic steps: loading, writing loaded contents,
probing and queueing. Whatever these steps uphold, every call upholds, whether it succeeds or fails.
A step may count on what the steps before it have found out: contents are written only over loaded
ones, and a removal is queued only after the element was found. Writing and queueing come last, so
a call that fails has done neither; only a list that is extended writes again after it has written.
-/

namespace LazyCollections

set_option autoImplicit false

variable {T : ElementType} {K : Scalar} {σ α β : Type}

def ListCall.isExtend : ListCall T → Bool
  | extend _ => true
  | _ => false

namespace Action

/-- Started where `P` holds, the action leaves `P`, whether it succeeds or fails. -/
def Keeps (P : Setting T K σ → Prop) (action : Action T K σ α) : Prop :=
  ∀ s, P s → Ensures s action (fun _ => P) fun _ => P

/-- Started where `P` holds, the action succeeds and leaves `D`, or fails and leaves `P`. -/
def Leads (P D : Setting T K σ → Prop) (action : Action T K σ α) : Prop :=
  ∀ s, P s → Ensures s action (fun _ => D) fun _ => P

section Rules

variable {P D : Setting T K σ → Prop} {action : Action T K σ α}

theorem Keeps.pure (a : α) : Keeps P (Pure.pure a : Action T K σ α) :=
  fun _ h => Ensures.pure h

theorem Keeps.throw (error : Error) : Keeps P (MonadExcept.throw error : Action T K σ α) :=
  fun _ h => Ensures.throw h

theorem Keeps.ofExcept (result : Except Error α) : Keeps P (liftM result : Action T K σ α) := by
  intro s h
  rw [Ensures, runOn_ofExcept]
  cases result <;> exact h

theorem Keeps.bind {next : α → Action T K σ β} (h : Keeps P action)
    (hnext : ∀ a, Keeps P (next a)) : Keeps P (action >>= next) :=
  fun s hs => (h s hs).bind fun a after => hnext a after

theorem Keeps.map (f : α → β) (h : Keeps P action) :
    Keeps P (do return f (← action)) :=
  h.bind fun a => Keeps.pure (f a)

theorem Keeps.after {s : Setting T K σ} (h : Keeps P action) (hs : P s) : P (action.runOn s).2 :=
  (h s hs).after

theorem Keeps.leads (h : Keeps P action) (hD : ∀ {s}, P s → D s) : Leads P D action :=
  fun s hs => (h s hs).post fun _ _ => hD

theorem Leads.map (f : α → β) (h : Leads P D action) :
    Leads P D (do return f (← action)) :=
  fun s hs => (h s hs).bind fun _ _ hafter => Ensures.pure hafter

end Rules

/-- The steps that the calls of every shape are made of uphold `P`, and after loading the contents
are known by `L`. Steps that write or queue leave `D`, and so does a call that needs none. -/
structure Upholds (P D : Setting T K σ → Prop) (L : Aggregate T K → Setting T K σ → Prop) :
    Prop where
  settle : ∀ {s}, P s → D s
  of_loaded : ∀ {a s}, L a s → P s
  load : ∀ {s}, P s → Ensures s loadedContents L fun _ => P
  put : ∀ {s} {a next : Aggregate T K}, L a s → next.shape = a.shape →
    (a.KeyedById → next.KeyedById) → Ensures s (putContents next) (fun _ => D) fun _ => P
  fastSize : Keeps P fastSize
  queueClear : ∀ {s}, P s → s.collection.stage = .uninitialized →
    Ensures s (enqueue .clear) (fun _ => D) fun _ => P

namespace Upholds

variable {P D : Setting T K σ → Prop} {L : Aggregate T K → Setting T K σ → Prop}
variable {s : Setting T K σ} {α β : Type}

section Basic

variable (h : Upholds P D L)
include h

theorem unwritten {a : α} {contents : Aggregate T K} (hs : L contents s) :
    Ensures s (Pure.pure a : Action T K σ α) (fun _ => D) fun _ => P :=
  Ensures.pure (h.settle (h.of_loaded hs))

theorem writable (hs : P s) : Ensures s writableContents L fun _ => P := by
  apply Ensures.collection_bind
  apply Ensures.ofExcept_cases
  · intro _ _
    exact h.load hs
  · intro _ _
    exact hs

theorem size : Keeps P size := by
  apply h.fastSize.bind
  intro found
  cases found with
  | some n => exact Keeps.pure n
  | none => exact Keeps.map Aggregate.size fun s hs => (h.load hs).post fun _ _ => h.of_loaded

theorem isEmpty : Keeps P isEmpty :=
  h.size.map fun n => decide (n = 0)

theorem view {view : Aggregate T K → Except Error β} {form : β → Aggregate T K}
    (hview : ∀ a x, view a = .ok x → a = form x) (hs : P s) :
    Ensures s (do view (← loadedContents)) (fun x => L (form x)) fun _ => P := by
  refine (h.load hs).bind fun a after ha => ?_
  cases hx : view a with
  | ok x =>
    rw [hview a x hx] at ha
    exact Ensures.pure ha
  | error error => exact Ensures.throw (h.of_loaded ha)

theorem writableView {view : Aggregate T K → Except Error β} {form : β → Aggregate T K}
    (hview : ∀ a x, view a = .ok x → a = form x) (hs : P s) :
    Ensures s (do view (← writableContents)) (fun x => L (form x)) fun _ => P := by
  refine (h.writable hs).bind fun a after ha => ?_
  cases hx : view a with
  | ok x =>
    rw [hview a x hx] at ha
    exact Ensures.pure ha
  | error error => exact Ensures.throw (h.of_loaded ha)

omit h in
theorem change {queued loaded : Action T K σ α}
    (hqueued : ∀ {s}, P s → s.collection.stage = .uninitialized →
      Ensures s queued (fun _ => D) fun _ => P)
    (hloaded : Leads P D loaded) :
    Leads P D (do
      (← collection).checkWritable
      if ← mayQueue then queued else loaded) := by
  intro s hs
  apply Ensures.collection_bind
  apply Ensures.ofExcept_cases
  · intro _ _
    refine mayQueue_ensures.bind ?_
    rintro allowed after ⟨rfl, hstage⟩
    cases allowed with
    | true => exact hqueued hs (hstage rfl)
    | false => exact hloaded _ hs
  · intro _ _
    exact hs

end Basic

end Upholds

structure UpholdsList (P D : Setting T K σ → Prop) (L : Aggregate T K → Setting T K σ → Prop) :
    Prop extends Upholds P D L where
  queueAdd : ∀ {s} (e : T.Element), P s → s.collection.stage = .uninitialized →
    Ensures s (enqueue (.add .unordered e)) (fun _ => D) fun _ => P
  probe : ∀ {s} (e : T.Element), P s → s.collection.stage = .uninitialized →
    Ensures s (probeMembership e)
      (fun found s' => P s' ∧ (found = some true →
        Ensures s' (enqueue (.remove .unordered e)) (fun _ => D) fun _ => P)) fun _ => P

namespace UpholdsList

open LazyList

variable {P D : Setting T K σ → Prop} {L : Aggregate T K → Setting T K σ → Prop}
variable {s : Setting T K σ} (h : UpholdsList P D L)
include h

theorem slots (hs : P s) : Ensures s slots (fun items => L (.sequence items)) fun _ => P :=
  h.view (fun a _ ha => by cases a <;> cases ha; rfl) hs

theorem writableSlots (hs : P s) :
    Ensures s writableSlots (fun items => L (.sequence items)) fun _ => P :=
  h.writableView (fun a _ ha => by cases a <;> cases ha; rfl) hs

theorem keeps_slots : Keeps P (LazyList.slots : Action T K σ (List (Option T.Element))) :=
  fun _ hs => (h.slots hs).post fun _ _ => h.of_loaded

theorem putSlots {items : List (Option T.Element)} (hs : L (.sequence items) s)
    (next : List (Option T.Element)) : Ensures s (putSlots next) (fun _ => D) fun _ => P :=
  h.put hs rfl fun _ => trivial

theorem elements : Keeps P (elements : Action T K σ (List T.Element)) :=
  h.keeps_slots.map (List.filterMap id)

theorem indexOf (e : T.Element) : Keeps P (indexOf e : Action T K σ (Option Nat)) :=
  h.keeps_slots.map (position? e)

theorem get (i : Nat) : Keeps P (get i : Action T K σ (Option T.Element)) := by
  apply h.keeps_slots.bind
  intro items
  cases items[i]? with
  | some slot => exact Keeps.pure slot
  | none => exact Keeps.throw _

theorem contains (e : T.Element) : Keeps P (contains e : Action T K σ Bool) := by
  intro s hs
  have hload := h.indexOf e |>.map Option.isSome
  apply Ensures.collection_bind
  split
  next hstage =>
    refine (h.probe e hs hstage).bind ?_
    intro found after hafter
    cases found with
    | some b => exact Ensures.pure hafter.1
    | none => exact hload after hafter.1
  next => exact hload s hs

theorem push (e : T.Element) : Leads P D (push e : Action T K σ Unit) := by
  refine Upholds.change (h.queueAdd e) ?_
  intro s hs
  refine (h.writableSlots hs).bind ?_
  intro items after hafter
  exact h.putSlots hafter _

/-- Where an element was added the next one is added again. -/
theorem extend (hagain : ∀ {s}, D s → P s) (es : List T.Element) :
    Leads P D (extend es : Action T K σ Unit) := by
  induction es with
  | nil => exact fun _ hs => Ensures.pure (h.settle hs)
  | cons e es ih => exact fun s hs => (h.push e s hs).bind fun _ after hafter => ih after (hagain hafter)

theorem insert (i : Nat) (e : T.Element) : Leads P D (insert i e : Action T K σ Unit) := by
  intro s hs
  refine (h.writableSlots hs).bind ?_
  intro items after hafter
  split
  next => exact h.putSlots hafter _
  next => exact Ensures.throw (h.of_loaded hafter)

theorem replaceSlot (i : Nat) (slot : Option T.Element) :
    Leads P D (replaceSlot i slot : Action T K σ (Option T.Element)) := by
  intro s hs
  refine (h.writableSlots hs).bind ?_
  intro items after hafter
  cases items[i]? with
  | some previous => exact (h.putSlots hafter _).bind fun _ _ hput => Ensures.pure hput
  | none => exact Ensures.throw (h.of_loaded hafter)

theorem removeAt (i : Nat) : Leads P D (removeAt i : Action T K σ (Option T.Element)) := by
  intro s hs
  refine (h.writableSlots hs).bind ?_
  intro items after hafter
  cases items[i]? with
  | some previous => exact (h.putSlots hafter _).bind fun _ _ hput => Ensures.pure hput
  | none => exact Ensures.throw (h.of_loaded hafter)

theorem removeLoaded (e : T.Element) : Leads P D (removeLoaded e : Action T K σ Bool) := by
  intro s hs
  refine (h.writableSlots hs).bind ?_
  intro items after hafter
  cases position? e items with
  | none => exact h.unwritten hafter
  | some i => exact (h.putSlots hafter _).bind fun _ _ hput => Ensures.pure hput

theorem remove (e : T.Element) : Leads P D (remove e : Action T K σ Bool) := by
  refine Upholds.change ?_ (h.removeLoaded e)
  intro s hs hstage
  refine (h.probe e hs hstage).bind ?_
  intro found after hafter
  cases found with
  | none => exact h.removeLoaded e after hafter.1
  | some b =>
    cases b with
    | false => exact Ensures.pure (h.settle hafter.1)
    | true => exact (hafter.2 rfl).bind fun _ _ hremoved => Ensures.pure hremoved

theorem clear : Leads P D (clear : Action T K σ Unit) := by
  refine Upholds.change h.queueClear ?_
  intro s hs
  refine (h.writableSlots hs).bind ?_
  intro items after hafter
  split
  next => exact h.putSlots hafter _
  next => exact h.unwritten hafter

theorem keepSlots (keep : Option T.Element → Bool) :
    Leads P D (keepSlots keep : Action T K σ Bool) := by
  intro s hs
  refine (h.writableSlots hs).bind ?_
  intro items after hafter
  simp only
  split
  next => exact h.unwritten hafter
  next => exact (h.putSlots hafter _).bind fun _ _ hput => Ensures.pure hput

theorem leads_run (call : ListCall T) (hagain : call.isExtend = true → ∀ {s}, D s → P s) :
    Leads P D (call.run : Action T K σ (Answer T K)) := by
  cases call with
  | size => exact (h.size.map _).leads h.settle
  | isEmpty => exact (h.isEmpty.map _).leads h.settle
  | get i => exact ((h.get i).map _).leads h.settle
  | contains e => exact ((h.contains e).map _).leads h.settle
  | indexOf e => exact ((h.indexOf e).map _).leads h.settle
  | elements => exact (h.elements.map _).leads h.settle
  | slots => exact (h.keeps_slots.map _).leads h.settle
  | push e => exact (h.push e).map _
  | extend es => exact (h.extend (hagain rfl) es).map _
  | insert i e => exact (h.insert i e).map _
  | set i e => exact (h.replaceSlot i (some e)).map _
  | setNull i => exact (h.replaceSlot i none).map _
  | removeAt i => exact (h.removeAt i).map _
  | remove e => exact (h.remove e).map _
  | clear => exact h.clear.map _
  | retain keep => exact ((h.keepSlots _).map fun _ => ()).map _
  | removeAll es => exact (h.keepSlots _).map _

omit h in
theorem run (h : UpholdsList P P L) (call : ListCall T) :
    Keeps P (call.run : Action T K σ (Answer T K)) :=
  h.leads_run call fun _ _ hs => hs

end UpholdsList

structure UpholdsSet (P D : Setting T K σ → Prop) (L : Aggregate T K → Setting T K σ → Prop) :
    Prop extends Upholds P D L where
  probe : ∀ {s} (e : T.Element), P s → s.collection.stage = .uninitialized →
    Ensures s (probeMembership e)
      (fun found s' => P s' ∧
        (found = some true → Ensures s' (enqueue (.remove .unordered e)) (fun _ => D) fun _ => P) ∧
        (found = some false → Ensures s' (enqueue (.add .unordered e)) (fun _ => D) fun _ => P))
      fun _ => P

namespace UpholdsSet

open LazySet

variable {P D : Setting T K σ → Prop} {L : Aggregate T K → Setting T K σ → Prop}
variable {s : Setting T K σ} (h : UpholdsSet P D L)
include h

theorem items (hs : P s) : Ensures s items (fun items => L (.set items)) fun _ => P :=
  h.view (fun a _ ha => by cases a <;> cases ha; rfl) hs

theorem keeps_items : Keeps P (LazySet.items : Action T K σ (SortedMap T.Id T.Element)) :=
  fun _ hs => (h.items hs).post fun _ _ => h.of_loaded

theorem writableItems (hs : P s) :
    Ensures s writableItems (fun items => L (.set items)) fun _ => P :=
  h.writableView (fun a _ ha => by cases a <;> cases ha; rfl) hs

theorem get (id : T.Id) : Keeps P (get id : Action T K σ (Option T.Element)) :=
  h.keeps_items.map fun items : SortedMap T.Id T.Element => items.get? id

theorem elements : Keeps P (elements : Action T K σ (List T.Element)) :=
  h.keeps_items.map SortedMap.values

theorem putSubset {items kept : SortedMap T.Id T.Element} (hs : L (.set items) s)
    (hkept : kept.entries ⊆ items.entries) :
    Ensures s (putItems kept) (fun _ => D) fun _ => P :=
  h.put hs rfl fun hitems => hitems.of_subset hkept

theorem putInserted {items : SortedMap T.Id T.Element} (hs : L (.set items) s) (e : T.Element) :
    Ensures s (putItems (items.insert (T.idOf e) e)) (fun _ => D) fun _ => P :=
  h.put hs rfl fun hitems => hitems.insert e

theorem contains (e : T.Element) : Keeps P (contains e : Action T K σ Bool) := by
  intro s hs
  have hload := h.keeps_items.map fun items => items.contains (T.idOf e)
  apply Ensures.collection_bind
  split
  next hstage =>
    refine (h.probe e hs hstage).bind ?_
    intro found after hafter
    cases found with
    | some b => exact Ensures.pure hafter.1
    | none => exact hload after hafter.1
  next => exact hload s hs

theorem insertLoaded (e : T.Element) : Leads P D (insertLoaded e : Action T K σ Bool) := by
  intro s hs
  refine (h.writableItems hs).bind ?_
  intro items after hafter
  split
  next => exact h.unwritten hafter
  next =>
    exact (h.putInserted hafter e).bind fun _ _ hput => Ensures.pure hput

theorem insert (e : T.Element) : Leads P D (insert e : Action T K σ Bool) := by
  refine Upholds.change ?_ (h.insertLoaded e)
  intro s hs hstage
  refine (h.probe e hs hstage).bind ?_
  intro found after hafter
  cases found with
  | none => exact h.insertLoaded e after hafter.1
  | some b =>
    cases b with
    | true => exact Ensures.pure (h.settle hafter.1)
    | false => exact (hafter.2.2 rfl).bind fun _ _ hadded => Ensures.pure hadded

theorem removeLoaded (e : T.Element) : Leads P D (removeLoaded e : Action T K σ Bool) := by
  intro s hs
  refine (h.writableItems hs).bind ?_
  intro items after hafter
  split
  next =>
    exact (h.putSubset hafter (SortedMap.erase_subset _ _)).bind
      fun _ _ hput => Ensures.pure hput
  next => exact h.unwritten hafter

theorem remove (e : T.Element) : Leads P D (remove e : Action T K σ Bool) := by
  refine Upholds.change ?_ (h.removeLoaded e)
  intro s hs hstage
  refine (h.probe e hs hstage).bind ?_
  intro found after hafter
  cases found with
  | none => exact h.removeLoaded e after hafter.1
  | some b =>
    cases b with
    | false => exact Ensures.pure (h.settle hafter.1)
    | true => exact (hafter.2.1 rfl).bind fun _ _ hremoved => Ensures.pure hremoved

theorem clear : Leads P D (clear : Action T K σ Unit) := by
  refine Upholds.change h.queueClear ?_
  intro s hs
  refine (h.writableItems hs).bind ?_
  intro items after hafter
  split
  next => exact h.putSubset hafter (List.nil_subset _)
  next => exact h.unwritten hafter

theorem retain (keep : T.Element → Bool) : Leads P D (retain keep : Action T K σ Unit) := by
  intro s hs
  refine (h.writableItems hs).bind ?_
  intro items after hafter
  simp only
  split
  next => exact h.putSubset hafter (SortedMap.filterValues_subset _ _)
  next => exact h.unwritten hafter

theorem leads_run (call : SetCall T) : Leads P D (call.run : Action T K σ (Answer T K)) := by
  cases call with
  | size => exact (h.size.map _).leads h.settle
  | isEmpty => exact (h.isEmpty.map _).leads h.settle
  | get id => exact ((h.get id).map _).leads h.settle
  | contains e => exact ((h.contains e).map _).leads h.settle
  | elements => exact (h.elements.map _).leads h.settle
  | insert e => exact (h.insert e).map _
  | remove e => exact (h.remove e).map _
  | clear => exact h.clear.map _
  | retain keep => exact (h.retain keep).map _

omit h in
theorem run (h : UpholdsSet P P L) (call : SetCall T) :
    Keeps P (call.run : Action T K σ (Answer T K)) :=
  h.leads_run call

end UpholdsSet

structure UpholdsMap (P D : Setting T K σ → Prop) (L : Aggregate T K → Setting T K σ → Prop) :
    Prop extends Upholds P D L where
  probe : ∀ {s} (k : K.Carrier), P s → s.collection.stage = .uninitialized →
    Ensures s (probeKey k)
      (fun found s' => P s' ∧
        (found = some none → ∀ e,
          Ensures s' (enqueue (.add (.key k) e)) (fun _ => D) fun _ => P) ∧
        ∀ old, found = some (some old) →
          Ensures s' (enqueue (.remove (.key k) old)) (fun _ => D) (fun _ => P) ∧
            ∀ e, Ensures s' (enqueue (.replace (.key k) old e)) (fun _ => D) fun _ => P)
      fun _ => P

namespace UpholdsMap

open LazyMap

variable {P D : Setting T K σ → Prop} {L : Aggregate T K → Setting T K σ → Prop}
variable {s : Setting T K σ} (h : UpholdsMap P D L)
include h

theorem items (hs : P s) : Ensures s items (fun items => L (.keyed items)) fun _ => P :=
  h.view (fun a _ ha => by cases a <;> cases ha; rfl) hs

theorem keeps_items :
    Keeps P (LazyMap.items : Action T K σ (SortedMap K.Carrier T.Element)) :=
  fun _ hs => (h.items hs).post fun _ _ => h.of_loaded

theorem writableItems (hs : P s) :
    Ensures s writableItems (fun items => L (.keyed items)) fun _ => P :=
  h.writableView (fun a _ ha => by cases a <;> cases ha; rfl) hs

theorem putItems {items : SortedMap K.Carrier T.Element} (hs : L (.keyed items) s)
    (next : SortedMap K.Carrier T.Element) :
    Ensures s (putItems next) (fun _ => D) fun _ => P :=
  h.put hs rfl fun _ => trivial

theorem get (k : K.Carrier) : Keeps P (get k : Action T K σ (Option T.Element)) :=
  h.keeps_items.map fun items : SortedMap K.Carrier T.Element => items.get? k

theorem entries : Keeps P (entries : Action T K σ (List (K.Carrier × T.Element))) :=
  h.keeps_items.map SortedMap.entries

theorem keys : Keeps P (keys : Action T K σ (List K.Carrier)) :=
  h.keeps_items.map SortedMap.keys

theorem values : Keeps P (values : Action T K σ (List T.Element)) :=
  h.keeps_items.map SortedMap.values

theorem containsKey (k : K.Carrier) : Keeps P (containsKey k : Action T K σ Bool) := by
  intro s hs
  have hload := h.keeps_items.map fun items => items.contains k
  apply Ensures.collection_bind
  split
  next hstage =>
    refine (h.probe k hs hstage).bind ?_
    intro found after hafter
    cases found with
    | some entry => exact Ensures.pure hafter.1
    | none => exact hload after hafter.1
  next => exact hload s hs

theorem insertLoaded (k : K.Carrier) (e : T.Element) :
    Leads P D (insertLoaded k e : Action T K σ (Option T.Element)) := by
  intro s hs
  refine (h.writableItems hs).bind ?_
  intro items after hafter
  exact (h.putItems hafter _).bind fun _ _ hput => Ensures.pure hput

theorem insert (k : K.Carrier) (e : T.Element) :
    Leads P D (insert k e : Action T K σ (Option T.Element)) := by
  refine Upholds.change ?_ (h.insertLoaded k e)
  intro s hs hstage
  refine (h.probe k hs hstage).bind ?_
  intro found after hafter
  cases found with
  | none => exact h.insertLoaded k e after hafter.1
  | some entry =>
    cases entry with
    | none => exact (hafter.2.1 rfl e).bind fun _ _ hadded => Ensures.pure hadded
    | some old =>
      exact ((hafter.2.2 old rfl).2 e).bind fun _ _ hreplaced => Ensures.pure hreplaced

theorem removeLoaded (k : K.Carrier) :
    Leads P D (removeLoaded k : Action T K σ (Option T.Element)) := by
  intro s hs
  refine (h.writableItems hs).bind ?_
  intro items after hafter
  cases items.get? k with
  | some old => exact (h.putItems hafter _).bind fun _ _ hput => Ensures.pure hput
  | none => exact h.unwritten hafter

theorem remove (k : K.Carrier) : Leads P D (remove k : Action T K σ (Option T.Element)) := by
  refine Upholds.change ?_ (h.removeLoaded k)
  intro s hs hstage
  refine (h.probe k hs hstage).bind ?_
  intro found after hafter
  cases found with
  | none => exact h.removeLoaded k after hafter.1
  | some entry =>
    cases entry with
    | none => exact Ensures.pure (h.settle hafter.1)
    | some old => exact (hafter.2.2 old rfl).1.bind fun _ _ hremoved => Ensures.pure hremoved

theorem clear : Leads P D (clear : Action T K σ Unit) := by
  refine Upholds.change h.queueClear ?_
  intro s hs
  refine (h.writableItems hs).bind ?_
  intro items after hafter
  split
  next => exact h.putItems hafter _
  next => exact h.unwritten hafter

theorem leads_run (call : MapCall T K) : Leads P D (call.run : Action T K σ (Answer T K)) := by
  cases call with
  | size => exact (h.size.map _).leads h.settle
  | isEmpty => exact (h.isEmpty.map _).leads h.settle
  | get k => exact ((h.get k).map _).leads h.settle
  | containsKey k => exact ((h.containsKey k).map _).leads h.settle
  | entries => exact (h.entries.map _).leads h.settle
  | keys => exact (h.keys.map _).leads h.settle
  | values => exact (h.values.map _).leads h.settle
  | insert k e => exact (h.insert k e).map _
  | remove k => exact (h.remove k).map _
  | clear => exact h.clear.map _

omit h in
theorem run (h : UpholdsMap P P L) (call : MapCall T K) :
    Keeps P (call.run : Action T K σ (Answer T K)) :=
  h.leads_run call

end UpholdsMap

end Action

inductive ShapedCall (T : ElementType) (K : Scalar) : Shape → Type
  | ofList (call : ListCall T) : ShapedCall T K .sequence
  | ofSet (call : SetCall T) : ShapedCall T K .set
  | ofMap (call : MapCall T K) : ShapedCall T K .keyed

def ShapedCall.run {σ : Type} {shape : Shape} : ShapedCall T K shape → Action T K σ (Answer T K)
  | ofList call => call.run
  | ofSet call => call.run
  | ofMap call => call.run

def ShapedCall.isExtend {shape : Shape} : ShapedCall T K shape → Bool
  | ofList call => call.isExtend
  | ofSet _ | ofMap _ => false

section Calls

variable {P D : Setting T K σ → Prop} {L : Aggregate T K → Setting T K σ → Prop} {shape : Shape}

theorem ShapedCall.leads (hlist : Action.UpholdsList P D L) (hset : Action.UpholdsSet P D L)
    (hmap : Action.UpholdsMap P D L) (call : ShapedCall T K shape)
    (hagain : call.isExtend = true → ∀ {s}, D s → P s) : Action.Leads P D call.run := by
  cases call with
  | ofList call => exact hlist.leads_run call hagain
  | ofSet call => exact hset.leads_run call
  | ofMap call => exact hmap.leads_run call

/-- What the steps of every shape uphold, every call upholds. -/
theorem ShapedCall.keeps (hlist : Action.UpholdsList P P L) (hset : Action.UpholdsSet P P L)
    (hmap : Action.UpholdsMap P P L) (call : ShapedCall T K shape) : Action.Keeps P call.run :=
  call.leads hlist hset hmap fun _ _ hs => hs

end Calls

end LazyCollections
