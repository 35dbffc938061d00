import LazyCollections.Proofs.Refinement.Opening
import LazyCollections.Proofs.Refinement.Probing

/-!
# Sets against maps from identities

A lazy set answers as a plain map from identities to elements does. Inserting keeps an element that
is there, and what may be queued is decided by what the queue or a probe tells about the identity.
-/

namespace LazyCollections

set_option autoImplicit false

variable {T : ElementType} {K : Scalar}

def setModel (T : ElementType) (K : Scalar) :
    PlainModel T K (SetCall T) (SortedMap T.Id T.Element) where
  answer
    | .size, m => (.ok (.count m.size), m)
    | .isEmpty, m => (.ok (.flag m.isEmpty), m)
    | .get id, m => (.ok (.element (m.get? id)), m)
    | .contains e, m => (.ok (.flag (m.contains (T.idOf e))), m)
    | .elements, m => (.ok (.elements m.values), m)
    | .insert e, m =>
      (.ok (.flag !m.contains (T.idOf e)), m.insertIfNew (T.idOf e) e)
    | .remove e, m => (.ok (.flag (m.contains (T.idOf e))), m.erase (T.idOf e))
    | .clear, _ => (.ok .done, ∅)
    | .retain keep, m => (.ok .done, m.filterValues keep)
  contents := .set

namespace LazySet

open LazyCollections.Action

theorem items_eq :
    (items : Action T K Database (SortedMap T.Id T.Element)) =
      (do (← loadedContents).asSet) := rfl

theorem writableItems_eq :
    (writableItems : Action T K Database (SortedMap T.Id T.Element)) =
      (do (← writableContents).asSet) := rfl

variable {d : Descriptor} {a : Attachment} {t : Trouble} {stored : Aggregate T K}
variable {m : SortedMap T.Id T.Element} {s : Setting T K Database}
variable (hT : T.Lawful d.shape) (hK : K.Restores)
variable (hs : Tracks d a t stored (.set m) s)

include hs in
theorem has_eq (e : T.Element) :
    (Aggregate.set m : Aggregate T K).has e = m.contains (T.idOf e) :=
  Aggregate.has_set hs.now_inOrder.keyedById e

theorem probe_ensures (hshape : d.shape = .set) (hs : Tracks d a t stored (.set m) s)
    (hT : T.Lawful d.shape) (hstage : s.collection.stage = .uninitialized) (e : T.Element) :
    Ensures s (probeMembership e)
      (fun found s' => (Tracks d a t stored (.set m) s' ∧ s'.collection = s.collection) ∧
        ∀ x, found = some x → x = m.contains (T.idOf e))
      (FailsOffline d a t stored (.set m)) := by
  have hkeyed : d.shape ≠ .keyed := by
    rw [hshape]
    nofun
  refine (hs.probeMembership_ensures hT hstage hkeyed e).post ?_
  intro found s' hs'
  rcases hs' with ⟨hafter, hfound⟩
  refine ⟨hafter, ?_⟩
  intro x hx
  rw [(hfound x hx).1, has_eq hs]

include hT hK hs

theorem contains_ensures (hshape : d.shape = .set) (e : T.Element) :
    Ensures s (contains e)
      (fun found s' => found = m.contains (T.idOf e) ∧ Tracks d a t stored (.set m) s')
      (FailsOffline d a t stored (.set m)) := by
  apply Ensures.collection_bind
  split
  next hstage =>
    refine Ensures.bind (probe_ensures hshape hs hT (by simpa using hstage) e) ?_
    intro found s₁ h₁
    rcases h₁ with ⟨⟨hs₁, _⟩, hfound⟩
    cases found with
    | some x =>
      exact Ensures.pure ⟨hfound x rfl, hs₁⟩
    | none => exact hs₁.read_ensures hT hK items_eq rfl fun items => items.contains (T.idOf e)
  next => exact hs.read_ensures hT hK items_eq rfl fun items => items.contains (T.idOf e)

theorem insertLoaded_ensures (e : T.Element) :
    Ensures s (insertLoaded e)
      (fun added s' => added = !m.contains (T.idOf e) ∧
        Tracks d a t stored (.set (m.insertIfNew (T.idOf e) e)) s')
      (FailsOffline d a t stored (.set m)) := by
  refine Ensures.bind (hs.writable_ensures hT hK writableItems_eq rfl) ?_
  intro items s₁ h₁
  rcases h₁ with ⟨rfl, hs₁⟩
  split
  next hthere =>
    obtain ⟨old, hold⟩ := SortedMap.contains_iff.mp hthere
    apply Ensures.pure
    rw [hthere, SortedMap.insertIfNew_of_some hold]
    exact ⟨rfl, hs₁.toTracks⟩
  next hnew =>
    have hnone := SortedMap.contains_eq_false_iff.mp (by simpa using hnew)
    rw [SortedMap.insertIfNew_of_none hnone]
    refine Ensures.bind (hs₁.putContents_ensures hs₁.stage (hs₁.now_inOrder.insert e)) ?_
    intro _ s' hs'
    exact Ensures.pure ⟨by simpa using hnew, hs'⟩

theorem insert_ensures (hshape : d.shape = .set) (e : T.Element) :
    Ensures s (insert e)
      (fun added s' => added = !m.contains (T.idOf e) ∧
        Tracks d a t stored (.set (m.insertIfNew (T.idOf e) e)) s')
      (FailsOffline d a t stored (.set m)) := by
  refine hs.change_ensures (fun hstage => ?_) (insertLoaded_ensures hT hK hs e)
  refine Ensures.bind (probe_ensures hshape hs hT hstage e) ?_
  intro found s₁ h₁
  rcases h₁ with ⟨⟨hs₁, hcollection⟩, hfound⟩
  match found with
  | some true =>
    have hthere := (hfound true rfl).symm
    obtain ⟨old, hold⟩ := SortedMap.contains_iff.mp hthere
    apply Ensures.pure
    rw [hthere, SortedMap.insertIfNew_of_some hold]
    exact ⟨rfl, hs₁⟩
  | some false =>
    have hnew := (hfound false rfl).symm
    have hnone := SortedMap.contains_eq_false_iff.mp hnew
    rw [hnew, SortedMap.insertIfNew_of_none hnone]
    refine Ensures.bind (hs₁.enqueue_ensures (by rw [hcollection, hstage])
      (hs₁.now_inOrder.insert e) (.insert m e hnone)) ?_
    intro _ s' hs'
    exact Ensures.pure ⟨rfl, hs'⟩
  | none => exact insertLoaded_ensures hT hK hs₁ e

theorem removeLoaded_ensures (e : T.Element) :
    Ensures s (removeLoaded e)
      (fun removed s' => removed = m.contains (T.idOf e) ∧
        Tracks d a t stored (.set (m.erase (T.idOf e))) s')
      (FailsOffline d a t stored (.set m)) := by
  refine Ensures.bind (hs.writable_ensures hT hK writableItems_eq rfl) ?_
  intro items s₁ h₁
  rcases h₁ with ⟨rfl, hs₁⟩
  split
  next hthere =>
    have hnext := hs₁.now_inOrder.of_subset (items.erase_subset (T.idOf e))
    refine Ensures.bind (hs₁.putContents_ensures hs₁.stage hnext) ?_
    intro _ s' hs'
    exact Ensures.pure ⟨hthere.symm, hs'⟩
  next hnew =>
    have habsent : items.contains (T.idOf e) = false := by simpa using hnew
    apply Ensures.pure
    rw [habsent, SortedMap.erase_of_none (SortedMap.contains_eq_false_iff.mp habsent)]
    exact ⟨rfl, hs₁.toTracks⟩

theorem remove_ensures (hshape : d.shape = .set) (e : T.Element) :
    Ensures s (remove e)
      (fun removed s' => removed = m.contains (T.idOf e) ∧
        Tracks d a t stored (.set (m.erase (T.idOf e))) s')
      (FailsOffline d a t stored (.set m)) := by
  refine hs.change_ensures (fun hstage => ?_) (removeLoaded_ensures hT hK hs e)
  refine Ensures.bind (probe_ensures hshape hs hT hstage e) ?_
  intro found s₁ h₁
  rcases h₁ with ⟨⟨hs₁, hcollection⟩, hfound⟩
  match found with
  | some true =>
    have hthere := (hfound true rfl).symm
    have hsome : m.get? (T.idOf e) ≠ none := by
      obtain ⟨old, hold⟩ := SortedMap.contains_iff.mp hthere
      rw [hold]
      nofun
    have hnext := hs₁.now_inOrder.of_subset (m.erase_subset (T.idOf e))
    refine Ensures.bind (hs₁.enqueue_ensures (by rw [hcollection, hstage]) hnext
      (.erase m e hsome)) ?_
    intro _ s' hs'
    exact Ensures.pure ⟨hthere.symm, hs'⟩
  | some false =>
    have habsent := (hfound false rfl).symm
    apply Ensures.pure
    rw [habsent, SortedMap.erase_of_none (SortedMap.contains_eq_false_iff.mp habsent)]
    exact ⟨rfl, hs₁⟩
  | none => exact removeLoaded_ensures hT hK hs₁ e

theorem retain_ensures (keep : T.Element → Bool) :
    Ensures s (retain keep) (fun _ => Tracks d a t stored (.set (m.filterValues keep)))
      (FailsOffline d a t stored (.set m)) := by
  refine Ensures.bind (hs.writable_ensures hT hK writableItems_eq rfl) ?_
  intro items s₁ h₁
  rcases h₁ with ⟨rfl, hs₁⟩
  dsimp only
  split
  next =>
    have hnext := hs₁.now_inOrder.of_subset (items.filterValues_subset keep)
    exact hs₁.putContents_ensures hs₁.stage hnext
  next hsize =>
    apply Ensures.pure
    rw [SortedMap.filterValues_eq_self (by simpa using hsize)]
    exact hs₁.toTracks

end LazySet

theorem SetCall.performs {d : Descriptor} {a : Attachment} (hT : T.Lawful d.shape) (hK : K.Restores)
    (hshape : d.shape = .set) (c : SetCall T) : Performs d a SetCall.run (setModel T K) c := by
  cases c with
  | size => exact performs_of_value rfl (fun _ => rfl) fun _ _ _ _ hs => hs.size_ensures hT hK
  | isEmpty =>
    have hempty : ∀ m : SortedMap T.Id T.Element,
        (Aggregate.set m : Aggregate T K).isEmpty = m.isEmpty := SortedMap.isEmpty_eq
    refine performs_of_value rfl (fun _ => rfl) fun m _ _ _ hs => ?_
    rw [← hempty]
    exact hs.isEmpty_ensures hT hK
  | get id =>
    exact performs_of_value rfl (fun _ => rfl) fun _ _ _ _ hs =>
      hs.read_ensures hT hK LazySet.items_eq rfl fun items => items.get? id
  | contains e =>
    exact performs_of_value rfl (fun _ => rfl) fun _ _ _ _ hs =>
      LazySet.contains_ensures hT hK hs hshape e
  | elements =>
    exact performs_of_value rfl (fun _ => rfl) fun _ _ _ _ hs =>
      hs.read_ensures hT hK LazySet.items_eq rfl SortedMap.values
  | insert e =>
    exact performs_of_value rfl (fun _ => rfl) fun _ _ _ _ hs =>
      LazySet.insert_ensures hT hK hs hshape e
  | remove e =>
    exact performs_of_value rfl (fun _ => rfl) fun _ _ _ _ hs =>
      LazySet.remove_ensures hT hK hs hshape e
  | clear =>
    exact performs_of_done rfl (fun _ => rfl) fun _ _ _ _ hs =>
      hs.clear_ensures hT hK LazySet.writableItems_eq rfl fun hempty =>
        congrArg Aggregate.set (SortedMap.eq_empty_of_isEmpty hempty)
  | retain keep =>
    exact performs_of_done rfl (fun _ => rfl) fun _ _ _ _ hs =>
      LazySet.retain_ensures hT hK hs keep

/-- A lazy set over stored elements follows the map of these elements, whatever is called and
whatever fails in between. -/
theorem lazySet_refines {env : Environment Database} {session : SessionId} {slot : Nat}
    {d : Descriptor} {owner : EntityId} {elements : List T.Element} (hT : T.Lawful .set)
    (hd : d.shape = .set) (hoffers : env.Offers session slot d owner)
    (hstores : env.source.store.StoresElements T d owner elements)
    (hdistinct : (elements.map T.idOf).Nodup) (steps : List (Step (SetCall T))) :
    ∃ c after,
      (EnvironmentAction.lazyCollection session slot d .set :
          EnvironmentAction Database (Collection T .unkeyed)).runOn env = (.ok c, after) ∧
        (⟨c, after⟩ : Setting T .unkeyed Database).logicalContents =
          .ok (.setOfElements elements) ∧
        Follows SetCall.run (setModel T .unkeyed) steps
          (SortedMap.ofList (elements.map fun e => (T.idOf e, e))) ⟨c, after⟩ := by
  have hshape : d.shape ≠ .keyed := by
    rw [hd]
    nofun
  have horder := Aggregate.inOrder_setOfElements (K := .unkeyed) elements
  have hholds := hstores.holdsAt_set (K := .unkeyed) hT.toStorable hd hdistinct
  rw [← hd] at hT horder
  have hidentifies := hstores.identifies hT.toStorable (hT.storableId hshape)
  exact lazyCollection_follows hT Scalar.restores_unkeyed hoffers hd horder hholds
    (fun _ => hidentifies) (SetCall.performs hT Scalar.restores_unkeyed hd) steps

/-- Two parts of one name and version are two elements of a set. -/
theorem lazySet_refines_parts :
    ∃ store,
      Store.seedElements Part.elementType {} ⟨⟨"Order.parts"⟩, .set, {}⟩ (.filled 0)
          [⟨.filled 1, "bolt", 1⟩, ⟨.filled 2, "bolt", 1⟩] = .ok store ∧
      ∃ c after,
        (EnvironmentAction.lazyCollection ⟨0⟩ 0 ⟨⟨"Order.parts"⟩, .set, {}⟩ .set :
            EnvironmentAction Database (Collection Part.elementType .unkeyed)).runOn
          (.serving store (.filled 0)) = (.ok c, after) ∧
        (⟨c, after⟩ : Setting Part.elementType .unkeyed Database).logicalContents =
          .ok (.setOfElements [⟨.filled 1, "bolt", 1⟩, ⟨.filled 2, "bolt", 1⟩]) ∧
        Follows SetCall.run (setModel Part.elementType .unkeyed)
          [.call (.remove ⟨.filled 1, "", 0⟩), .refuseNext, .flush, .setOffline true, .flush]
          (SortedMap.ofList [(.filled 1, ⟨.filled 1, "bolt", 1⟩),
            (.filled 2, ⟨.filled 2, "bolt", 1⟩)]) ⟨c, after⟩ := by
  obtain ⟨store, hseed⟩ : ∃ store,
      Store.seedElements Part.elementType {} ⟨⟨"Order.parts"⟩, .set, {}⟩ (.filled 0)
        [⟨.filled 1, "bolt", 1⟩, ⟨.filled 2, "bolt", 1⟩] = .ok store := ⟨_, rfl⟩
  obtain ⟨hoffers, hstore⟩ := Environment.offers_serving store ⟨⟨"Order.parts"⟩, .set, {}⟩
    (.filled 0)
  have hstores := Store.storesElements_of_seedElements hseed
  rw [← hstore] at hstores
  exact ⟨store, hseed, lazySet_refines Part.lawful_set rfl hoffers hstores (by decide) _⟩

end LazyCollections
