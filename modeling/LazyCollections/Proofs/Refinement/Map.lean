import LazyCollections.Proofs.Refinement.Opening
import LazyCollections.Proofs.Refinement.Probing

/-!
# Maps against plain maps

A lazy map answers as a plain map with ordered keys does. Putting and removing give back what was
under the key, so they may be queued only where the queue or a probe tells it.
-/

namespace LazyCollections

set_option autoImplicit false

variable {T : ElementType} {K : Scalar}

def mapModel (T : ElementType) (K : Scalar) :
    PlainModel T K (MapCall T K) (SortedMap K.Carrier T.Element) where
  answer
    | .size, m => (.ok (.count m.size), m)
    | .isEmpty, m => (.ok (.flag m.isEmpty), m)
    | .get k, m => (.ok (.element (m.get? k)), m)
    | .containsKey k, m => (.ok (.flag (m.contains k)), m)
    | .entries, m => (.ok (.entries m.entries), m)
    | .keys, m => (.ok (.keys m.keys), m)
    | .values, m => (.ok (.elements m.values), m)
    | .insert k e, m => (.ok (.element (m.get? k)), m.insert k e)
    | .remove k, m => (.ok (.element (m.get? k)), m.erase k)
    | .clear, _ => (.ok .done, ∅)
  contents := .keyed

namespace LazyMap

open LazyCollections.Action

theorem items_eq :
    (items : Action T K Database (SortedMap K.Carrier T.Element)) =
      (do (← loadedContents).asKeyed) := rfl

theorem writableItems_eq :
    (writableItems : Action T K Database (SortedMap K.Carrier T.Element)) =
      (do (← writableContents).asKeyed) := rfl

variable {d : Descriptor} {a : Attachment} {t : Trouble} {stored : Aggregate T K}
variable {m : SortedMap K.Carrier T.Element} {s : Setting T K Database}
variable (hT : T.Lawful d.shape) (hK : K.Restores)
variable (hs : Tracks d a t stored (.keyed m) s)
include hT hK hs

theorem containsKey_ensures (k : K.Carrier) :
    Ensures s (containsKey k)
      (fun found s' => found = m.contains k ∧ Tracks d a t stored (.keyed m) s')
      (FailsOffline d a t stored (.keyed m)) := by
  apply Ensures.collection_bind
  split
  next hstage =>
    refine Ensures.bind (hs.probeKey_ensures hT.toStorable hK (by simpa using hstage) rfl k)
      ?_
    intro found s₁ h₁
    rcases h₁ with ⟨⟨hs₁, _⟩, hfound⟩
    cases found with
    | some entry =>
      apply Ensures.pure
      rw [SortedMap.contains, hfound entry rfl]
      exact ⟨rfl, hs₁⟩
    | none => exact hs₁.read_ensures hT hK items_eq rfl fun items => items.contains k
  next => exact hs.read_ensures hT hK items_eq rfl fun items => items.contains k

theorem insertLoaded_ensures (k : K.Carrier) (e : T.Element) :
    Ensures s (insertLoaded k e)
      (fun old s' => old = m.get? k ∧ Tracks d a t stored (.keyed (m.insert k e)) s')
      (FailsOffline d a t stored (.keyed m)) := by
  refine Ensures.bind (hs.writable_ensures hT hK writableItems_eq rfl) ?_
  intro items s₁ h₁
  rcases h₁ with ⟨rfl, hs₁⟩
  refine Ensures.bind (hs₁.putContents_ensures hs₁.stage hs₁.now_inOrder.keyed) ?_
  intro _ s' hs'
  exact Ensures.pure ⟨rfl, hs'⟩

theorem insert_ensures (k : K.Carrier) (e : T.Element) :
    Ensures s (insert k e)
      (fun old s' => old = m.get? k ∧ Tracks d a t stored (.keyed (m.insert k e)) s')
      (FailsOffline d a t stored (.keyed m)) := by
  refine hs.change_ensures (fun hstage => ?_) (insertLoaded_ensures hT hK hs k e)
  refine Ensures.bind (hs.probeKey_ensures hT.toStorable hK hstage rfl k) ?_
  intro found s₁ h₁
  rcases h₁ with ⟨⟨hs₁, hcollection⟩, hfound⟩
  have hunloaded : s₁.collection.stage = .uninitialized := by rw [hcollection, hstage]
  match found with
  | some none =>
    have hget := hfound none rfl
    refine Ensures.bind (hs₁.enqueue_ensures hunloaded hs₁.now_inOrder.keyed
      (.put m k e hget)) ?_
    intro _ s' hs'
    exact Ensures.pure ⟨hget.symm, hs'⟩
  | some (some old) =>
    have hget := hfound (some old) rfl
    refine Ensures.bind (hs₁.enqueue_ensures hunloaded hs₁.now_inOrder.keyed
      (.replace m k old e hget)) ?_
    intro _ s' hs'
    exact Ensures.pure ⟨hget.symm, hs'⟩
  | none => exact insertLoaded_ensures hT hK hs₁ k e

theorem removeLoaded_ensures (k : K.Carrier) :
    Ensures s (removeLoaded k)
      (fun old s' => old = m.get? k ∧ Tracks d a t stored (.keyed (m.erase k)) s')
      (FailsOffline d a t stored (.keyed m)) := by
  refine Ensures.bind (hs.writable_ensures hT hK writableItems_eq rfl) ?_
  intro items s₁ h₁
  rcases h₁ with ⟨rfl, hs₁⟩
  cases hget : items.get? k with
  | some old =>
    simp only
    refine Ensures.bind (hs₁.putContents_ensures hs₁.stage hs₁.now_inOrder.keyed) ?_
    intro _ s' hs'
    exact Ensures.pure ⟨rfl, hs'⟩
  | none =>
    simp only
    apply Ensures.pure
    rw [SortedMap.erase_of_none hget]
    exact ⟨rfl, hs₁.toTracks⟩

theorem remove_ensures (k : K.Carrier) :
    Ensures s (remove k)
      (fun old s' => old = m.get? k ∧ Tracks d a t stored (.keyed (m.erase k)) s')
      (FailsOffline d a t stored (.keyed m)) := by
  refine hs.change_ensures (fun hstage => ?_) (removeLoaded_ensures hT hK hs k)
  refine Ensures.bind (hs.probeKey_ensures hT.toStorable hK hstage rfl k) ?_
  intro found s₁ h₁
  rcases h₁ with ⟨⟨hs₁, hcollection⟩, hfound⟩
  match found with
  | some none =>
    have hget := hfound none rfl
    apply Ensures.pure
    rw [SortedMap.erase_of_none hget]
    exact ⟨hget.symm, hs₁⟩
  | some (some old) =>
    have hget := hfound (some old) rfl
    refine Ensures.bind (hs₁.enqueue_ensures (by rw [hcollection, hstage])
      hs₁.now_inOrder.keyed (.take m k old hget)) ?_
    intro _ s' hs'
    exact Ensures.pure ⟨hget.symm, hs'⟩
  | none => exact removeLoaded_ensures hT hK hs₁ k

end LazyMap

theorem MapCall.performs {d : Descriptor} {a : Attachment} (hT : T.Lawful d.shape)
    (hK : K.Restores) (c : MapCall T K) : Performs d a MapCall.run (mapModel T K) c := by
  cases c with
  | size => exact performs_of_value rfl (fun _ => rfl) fun _ _ _ _ hs => hs.size_ensures hT hK
  | isEmpty =>
    have hempty : ∀ m : SortedMap K.Carrier T.Element,
        (Aggregate.keyed m : Aggregate T K).isEmpty = m.isEmpty := SortedMap.isEmpty_eq
    refine performs_of_value rfl (fun _ => rfl) fun m _ _ _ hs => ?_
    rw [← hempty]
    exact hs.isEmpty_ensures hT hK
  | get k =>
    exact performs_of_value rfl (fun _ => rfl) fun _ _ _ _ hs =>
      hs.read_ensures hT hK LazyMap.items_eq rfl fun items => items.get? k
  | containsKey k =>
    exact performs_of_value rfl (fun _ => rfl) fun _ _ _ _ hs =>
      LazyMap.containsKey_ensures hT hK hs k
  | entries =>
    exact performs_of_value rfl (fun _ => rfl) fun _ _ _ _ hs =>
      hs.read_ensures hT hK LazyMap.items_eq rfl SortedMap.entries
  | keys =>
    exact performs_of_value rfl (fun _ => rfl) fun _ _ _ _ hs =>
      hs.read_ensures hT hK LazyMap.items_eq rfl SortedMap.keys
  | values =>
    exact performs_of_value rfl (fun _ => rfl) fun _ _ _ _ hs =>
      hs.read_ensures hT hK LazyMap.items_eq rfl SortedMap.values
  | insert k e =>
    exact performs_of_value rfl (fun _ => rfl) fun _ _ _ _ hs =>
      LazyMap.insert_ensures hT hK hs k e
  | remove k =>
    exact performs_of_value rfl (fun _ => rfl) fun _ _ _ _ hs =>
      LazyMap.remove_ensures hT hK hs k
  | clear =>
    exact performs_of_done rfl (fun _ => rfl) fun _ _ _ _ hs =>
      hs.clear_ensures hT hK LazyMap.writableItems_eq rfl fun hempty =>
        congrArg Aggregate.keyed (SortedMap.eq_empty_of_isEmpty hempty)

/-- A lazy map over stored entries follows the map of these entries, whatever is called and
whatever fails in between. -/
theorem lazyMap_refines {env : Environment Database} {session : SessionId} {slot : Nat}
    {d : Descriptor} {owner : EntityId} {entries : List (K.Carrier × T.Element)}
    (hT : T.Lawful .keyed) (hK : K.Restores) (hd : d.shape = .keyed)
    (hoffers : env.Offers session slot d owner)
    (hstores : env.source.store.StoresEntries T K d owner entries)
    (hdistinct : (entries.map Prod.fst).Nodup) (steps : List (Step (MapCall T K))) :
    ∃ c after,
      (EnvironmentAction.lazyCollection session slot d .keyed :
          EnvironmentAction Database (Collection T K)).runOn env = (.ok c, after) ∧
        (⟨c, after⟩ : Setting T K Database).logicalContents = .ok (.keyedOfEntries entries) ∧
        Follows MapCall.run (mapModel T K) steps (SortedMap.ofList entries) ⟨c, after⟩ := by
  have horder := Aggregate.inOrder_keyed (T := T) (SortedMap.ofList entries)
  have hholds := hstores.holdsAt hT.toStorable hdistinct
  rw [← hd] at hT horder
  exact lazyCollection_follows hT hK hoffers hd horder hholds
    (fun hshape => absurd hd hshape) (MapCall.performs hT hK) steps

theorem lazyMap_refines_notes :
    ∃ store,
      Store.seedEntries (.ofScalar .text) .text {} ⟨⟨"Order.notes"⟩, .keyed, {}⟩ (.filled 0)
          [("side", "fragile"), ("front", "urgent")] = .ok store ∧
      ∃ c after,
        (EnvironmentAction.lazyCollection ⟨0⟩ 0 ⟨⟨"Order.notes"⟩, .keyed, {}⟩ .keyed :
            EnvironmentAction Database (Collection (.ofScalar .text) .text)).runOn
          (.serving store (.filled 0)) = (.ok c, after) ∧
        (⟨c, after⟩ : Setting (.ofScalar .text) .text Database).logicalContents =
          .ok (.keyedOfEntries [("side", "fragile"), ("front", "urgent")]) ∧
        Follows MapCall.run (mapModel (.ofScalar .text) .text)
          [.setOffline true, .call (.insert "side" "heavy"), .setOffline false,
            .call (.remove "front"), .refuseNext, .flush, .flush]
          (SortedMap.ofList [("side", "fragile"), ("front", "urgent")]) ⟨c, after⟩ := by
  obtain ⟨store, hseed⟩ : ∃ store,
      Store.seedEntries (.ofScalar .text) .text {} ⟨⟨"Order.notes"⟩, .keyed, {}⟩ (.filled 0)
        [("side", "fragile"), ("front", "urgent")] = .ok store := ⟨_, rfl⟩
  obtain ⟨hoffers, hstore⟩ := Environment.offers_serving store ⟨⟨"Order.notes"⟩, .keyed, {}⟩
    (.filled 0)
  have hstores := Store.storesEntries_of_seedEntries hseed
  rw [← hstore] at hstores
  exact ⟨store, hseed, lazyMap_refines
    (ElementType.lawful_ofScalar Scalar.restores_text nofun .keyed) Scalar.restores_text rfl
    hoffers hstores (by decide) _⟩

end LazyCollections
