import Mathlib.Data.List.InsertIdx
import LazyCollections.Proofs.Refinement.Opening
import LazyCollections.Proofs.Refinement.Probing

/-!
# Lists against vectors

A lazy list of a stored owner answers as a vector of elements does, as long as no slot is set to
null. Appending is always queued on an unloaded list; a removal is queued only if the queue does not
concern the element, because an element may be in the list several times.
-/

namespace LazyCollections

set_option autoImplicit false

variable {T : ElementType} {K : Scalar}

/-- The calls that a vector of elements has as well. -/
def ListCall.OnVector : ListCall T → Prop
  | setNull _ | extend _ => False
  | _ => True

def elementAt (m : List T.Element) (i : Nat) : Except Error (Option T.Element) :=
  match m[i]? with
  | some e => .ok (some e)
  | none => .error (.bounds i m.length)

def listModel (T : ElementType) (K : Scalar) :
    PlainModel T K { c : ListCall T // c.OnVector } (List T.Element) where
  answer
    | ⟨.size, _⟩, m => (.ok (.count m.length), m)
    | ⟨.isEmpty, _⟩, m => (.ok (.flag m.isEmpty), m)
    | ⟨.get i, _⟩, m => ((elementAt m i).map .element, m)
    | ⟨.contains e, _⟩, m => (.ok (.flag (m.any fun d => T.same d e)), m)
    | ⟨.indexOf e, _⟩, m => (.ok (.position (m.findIdx? fun d => T.same d e)), m)
    | ⟨.elements, _⟩, m => (.ok (.elements m), m)
    | ⟨.slots, _⟩, m => (.ok (.slots (m.map some)), m)
    | ⟨.push e, _⟩, m => (.ok .done, m ++ [e])
    | ⟨.insert i e, _⟩, m =>
      if i ≤ m.length then (.ok .done, m.insertIdx i e) else (.error (.bounds i m.length), m)
    | ⟨.set i e, _⟩, m => ((elementAt m i).map .element, m.set i e)
    | ⟨.removeAt i, _⟩, m => ((elementAt m i).map .element, m.eraseIdx i)
    | ⟨.remove e, _⟩, m =>
      (.ok (.flag (m.any fun d => T.same d e)), m.eraseP fun d => T.same d e)
    | ⟨.clear, _⟩, _ => (.ok .done, [])
    | ⟨.retain keep, _⟩, m => (.ok .done, m.filter keep)
    | ⟨.removeAll es, _⟩, m =>
      (.ok (.flag (m.any fun d => (es.map T.idOf).contains (T.idOf d))),
        m.filter fun d => !(es.map T.idOf).contains (T.idOf d))
  contents m := .sequence (m.map some)

namespace LazyList

open LazyCollections.Action

theorem slots_eq :
    (slots : Action T K Database (List (Option T.Element))) =
      (do (← loadedContents).asSequence) := rfl

theorem writableSlots_eq :
    (writableSlots : Action T K Database (List (Option T.Element))) =
      (do (← writableContents).asSequence) := rfl

variable {d : Descriptor} {a : Attachment} {t : Trouble} {stored : Aggregate T K}
variable {m : List T.Element} {s : Setting T K Database}

theorem holds_comp_some (e : T.Element) :
    QueuedOp.holds T e ∘ some = fun d => T.same d e := rfl

theorem has_eq (m : List T.Element) (e : T.Element) :
    (Aggregate.sequence (m.map some) : Aggregate T K).has e = m.any fun d => T.same d e := by
  rw [Aggregate.has_sequence, List.any_map, holds_comp_some]

theorem removeFirst_eq (m : List T.Element) (e : T.Element) :
    QueuedOp.removeFirst e (m.map some) = (m.eraseP fun d => T.same d e).map some := by
  rw [QueuedOp.removeFirst, List.eraseP_map, holds_comp_some]

theorem position?_eq (m : List T.Element) (e : T.Element) :
    position? e (m.map some) = m.findIdx? fun d => T.same d e := by
  rw [position?, List.findIdx?_map, holds_comp_some]

theorem putSlots_ensures (hd : d.shape = .sequence)
    (hs : LoadedAs d a t stored (.sequence (m.map some)) s) {slots : List (Option T.Element)}
    {next : List T.Element} (hslots : slots = next.map some)
    {E : Error → Setting T K Database → Prop} :
    Ensures s (putSlots slots)
      (fun _ => Tracks d a t stored (.sequence (next.map some))) E := by
  subst hslots
  refine hs.putContents_ensures hs.stage ?_
  rw [hd]
  exact Aggregate.inOrder_sequence next

section Answers

variable (hT : T.Lawful d.shape) (hK : K.Restores)
variable (hs : Tracks d a t stored (.sequence (m.map some)) s)
include hT hK hs

theorem size_ensures :
    Ensures s size
      (fun n s' => n = m.length ∧ Tracks d a t stored (.sequence (m.map some)) s')
      (FailsOffline d a t stored (.sequence (m.map some))) := by
  have hsize : (Aggregate.sequence (m.map some) : Aggregate T K).size = m.length :=
    List.length_map some
  rw [← hsize]
  exact hs.size_ensures hT hK

theorem isEmpty_ensures :
    Ensures s isEmpty
      (fun b s' => b = m.isEmpty ∧ Tracks d a t stored (.sequence (m.map some)) s')
      (FailsOffline d a t stored (.sequence (m.map some))) := by
  have hempty : (Aggregate.sequence (m.map some) : Aggregate T K).isEmpty = m.isEmpty := by
    cases m <;> rfl
  rw [← hempty]
  exact hs.isEmpty_ensures hT hK

theorem elements_ensures :
    Ensures s elements
      (fun found s' => found = m ∧ Tracks d a t stored (.sequence (m.map some)) s')
      (FailsOffline d a t stored (.sequence (m.map some))) := by
  have helements : (m.map some).filterMap id = m := by simp
  have hread := hs.read_ensures hT hK slots_eq rfl (List.filterMap id)
  rw [helements] at hread
  exact hread

theorem get_yields (i : Nat) :
    Yields d a t stored (.sequence (m.map some)) (.sequence (m.map some)) s (get i)
      (elementAt m i) := by
  have hitems := hs.loaded_ensures hT hK slots_eq rfl
  refine Ensures.bind (hitems.failing fun _ _ => Or.inr) ?_
  intro items s₁ h₁
  rcases h₁ with ⟨rfl, hs₁⟩
  rw [elementAt, List.getElem?_map, List.length_map]
  cases m[i]? with
  | some e =>
    exact Ensures.pure ⟨rfl, hs₁⟩
  | none =>
    exact Ensures.throw (Or.inl ⟨rfl, hs₁⟩)

theorem indexOf_ensures (e : T.Element) :
    Ensures s (indexOf e)
      (fun found s' => found = (m.findIdx? fun d => T.same d e) ∧
        Tracks d a t stored (.sequence (m.map some)) s')
      (FailsOffline d a t stored (.sequence (m.map some))) := by
  rw [← position?_eq]
  exact hs.read_ensures hT hK slots_eq rfl (position? e)

theorem contains_ensures (hd : d.shape = .sequence) (e : T.Element) :
    Ensures s (contains e)
      (fun found s' => found = (m.any fun d => T.same d e) ∧
        Tracks d a t stored (.sequence (m.map some)) s')
      (FailsOffline d a t stored (.sequence (m.map some))) := by
  have hloaded : ∀ {s₁ : Setting T K Database},
      Tracks d a t stored (.sequence (m.map some)) s₁ →
        Ensures s₁ (do return (← indexOf e).isSome)
          (fun found s' => found = (m.any fun d => T.same d e) ∧
            Tracks d a t stored (.sequence (m.map some)) s')
          (FailsOffline d a t stored (.sequence (m.map some))) := by
    intro s₁ hs₁
    refine Ensures.bind (indexOf_ensures hT hK hs₁ e) ?_
    intro found s' hs'
    rcases hs' with ⟨rfl, hs'⟩
    exact Ensures.pure ⟨List.findIdx?_isSome, hs'⟩
  apply Ensures.collection_bind
  split
  next hstage =>
    have hkeyed : d.shape ≠ .keyed := by
      rw [hd]
      nofun
    refine Ensures.bind (hs.probeMembership_ensures hT (by simpa using hstage) hkeyed e)
      ?_
    intro found s₁ h₁
    rcases h₁ with ⟨⟨hs₁, _⟩, hfound⟩
    cases found with
    | some x =>
      exact Ensures.pure ⟨(hfound x rfl).1.trans (has_eq m e), hs₁⟩
    | none => exact hloaded hs₁
  next => exact hloaded hs

end Answers

section Changes

variable (hT : T.Lawful d.shape) (hK : K.Restores) (hd : d.shape = .sequence)
variable (hs : Tracks d a t stored (.sequence (m.map some)) s)
include hT hK hd hs

theorem push_ensures (e : T.Element) :
    Ensures s (push e)
      (fun _ => Tracks d a t stored (.sequence ((m ++ [e]).map some)))
      (FailsOffline d a t stored (.sequence (m.map some))) := by
  have hnext := Aggregate.inOrder_sequence (K := K) (m ++ [e])
  have happend : (m ++ [e]).map some = m.map some ++ [some e] := by simp
  rw [← hd, happend] at hnext
  refine hs.change_ensures (fun hstage => ?_) ?_
  · rw [happend]
    exact hs.enqueue_ensures hstage hnext (.append _ e)
  · refine Ensures.bind (hs.writable_ensures hT hK writableSlots_eq rfl) ?_
    intro items s₁ h₁
    rcases h₁ with ⟨rfl, hs₁⟩
    exact putSlots_ensures hd hs₁ happend.symm

theorem insert_yields (i : Nat) (e : T.Element) :
    Yields d a t stored (.sequence (m.map some))
      (.sequence ((if i ≤ m.length then m.insertIdx i e else m).map some)) s (insert i e)
      (if i ≤ m.length then .ok () else .error (.bounds i m.length)) := by
  have hitems := hs.writable_ensures hT hK writableSlots_eq rfl
  refine Ensures.bind (hitems.failing fun _ _ => Or.inr) ?_
  intro items s₁ h₁
  rcases h₁ with ⟨rfl, hs₁⟩
  rw [List.length_map]
  by_cases hi : i ≤ m.length
  · rw [if_pos hi, if_pos hi, if_pos hi]
    exact (putSlots_ensures hd hs₁ (List.map_insertIdx some m i e).symm).post fun _ _ h => ⟨rfl, h⟩
  · rw [if_neg hi, if_neg hi, if_neg hi]
    exact Ensures.throw (Or.inl ⟨rfl, hs₁.toTracks⟩)

theorem exchange_yields {i : Nat} {next : List T.Element}
    {change : List (Option T.Element) → List (Option T.Element)}
    (hchange : change (m.map some) = next.map some) (hnone : m[i]? = none → next = m) :
    Yields d a t stored (.sequence (m.map some)) (.sequence (next.map some)) s
      (do
        let items ← writableSlots
        match items[i]? with
        | some previous =>
          putSlots (change items)
          return previous
        | none => throw (.bounds i items.length))
      (elementAt m i) := by
  have hitems := hs.writable_ensures hT hK writableSlots_eq rfl
  refine Ensures.bind (hitems.failing fun _ _ => Or.inr) ?_
  intro items s₁ h₁
  rcases h₁ with ⟨rfl, hs₁⟩
  rw [elementAt, List.getElem?_map, List.length_map]
  cases hget : m[i]? with
  | some e =>
    refine Ensures.bind (putSlots_ensures hd hs₁ hchange) ?_
    intro _ s' hs'
    exact Ensures.pure ⟨rfl, hs'⟩
  | none =>
    rw [hnone hget]
    exact Ensures.throw (Or.inl ⟨rfl, hs₁.toTracks⟩)

theorem set_yields (i : Nat) (e : T.Element) :
    Yields d a t stored (.sequence (m.map some)) (.sequence ((m.set i e).map some)) s (set i e)
      (elementAt m i) := by
  refine exchange_yields hT hK hd hs List.map_set.symm ?_
  intro hnone
  exact List.set_eq_of_length_le (List.getElem?_eq_none_iff.mp hnone)

theorem removeAt_yields (i : Nat) :
    Yields d a t stored (.sequence (m.map some)) (.sequence ((m.eraseIdx i).map some)) s
      (removeAt i) (elementAt m i) := by
  refine exchange_yields hT hK hd hs (List.eraseIdx_map some m i) ?_
  intro hnone
  exact List.eraseIdx_of_length_le (List.getElem?_eq_none_iff.mp hnone)

theorem removeLoaded_ensures (e : T.Element) :
    Ensures s (removeLoaded e)
      (fun removed s' => removed = (m.any fun d => T.same d e) ∧
        Tracks d a t stored (.sequence ((m.eraseP fun d => T.same d e).map some)) s')
      (FailsOffline d a t stored (.sequence (m.map some))) := by
  refine Ensures.bind (hs.writable_ensures hT hK writableSlots_eq rfl) ?_
  intro items s₁ h₁
  rcases h₁ with ⟨rfl, hs₁⟩
  rw [position?_eq]
  cases hfound : m.findIdx? fun d => T.same d e with
  | none =>
    have habsent : ∀ d ∈ m, ¬T.same d e = true := fun d hd =>
      Bool.eq_false_iff.mp (List.findIdx?_eq_none_iff.mp hfound d hd)
    apply Ensures.pure
    rw [List.eraseP_of_forall_not habsent, List.any_eq_false.mpr habsent]
    exact ⟨rfl, hs₁.toTracks⟩
  | some i =>
    have hthere := congrArg Option.isSome hfound
    rw [List.findIdx?_isSome] at hthere
    have herase : (m.map some).eraseIdx i = (m.eraseP fun d => T.same d e).map some := by
      rw [List.eraseIdx_map, List.eraseP_eq_eraseIdx, hfound]
    rw [hthere]
    refine Ensures.bind (putSlots_ensures hd hs₁ herase) ?_
    intro _ s' hs'
    exact Ensures.pure ⟨rfl, hs'⟩

/-- A removal is queued only if an element of the identity is there and the queue does not concern
it. -/
theorem remove_ensures (e : T.Element) :
    Ensures s (remove e)
      (fun removed s' => removed = (m.any fun d => T.same d e) ∧
        Tracks d a t stored (.sequence ((m.eraseP fun d => T.same d e).map some)) s')
      (FailsOffline d a t stored (.sequence (m.map some))) := by
  have hkeyed : d.shape ≠ .keyed := by
    rw [hd]
    nofun
  refine hs.change_ensures (fun hstage => ?_) (removeLoaded_ensures hT hK hd hs e)
  refine Ensures.bind (hs.probeMembership_ensures hT hstage hkeyed e) ?_
  intro found s₁ h₁
  rcases h₁ with ⟨⟨hs₁, hcollection⟩, hfound⟩
  match found with
  | some true =>
    obtain ⟨hthere, hqueue⟩ := hfound true rfl
    rw [has_eq] at hthere
    have hnext := Aggregate.inOrder_sequence (K := K) (m.eraseP fun d => T.same d e)
    rw [← hd, ← removeFirst_eq] at hnext
    have hstep := QueueStep.removeFirst (K := K) (m.map some) e (hqueue rfl hd)
    rw [← hcollection] at hstep
    rw [← hthere, ← removeFirst_eq]
    refine Ensures.bind (hs₁.enqueue_ensures (by rw [hcollection, hstage]) hnext hstep) ?_
    intro _ s' hs'
    exact Ensures.pure ⟨rfl, hs'⟩
  | some false =>
    have habsent := (hfound false rfl).1
    rw [has_eq] at habsent
    apply Ensures.pure
    rw [← habsent, List.eraseP_of_forall_not (List.any_eq_false.mp habsent.symm)]
    exact ⟨rfl, hs₁⟩
  | none => exact removeLoaded_ensures hT hK hd hs₁ e

theorem keepSlots_ensures {keep : Option T.Element → Bool} {p : T.Element → Bool}
    (hkeep : keep ∘ some = p) :
    Ensures s (keepSlots keep)
      (fun changed s' => changed = (m.any fun e => !p e) ∧
        Tracks d a t stored (.sequence ((m.filter p).map some)) s')
      (FailsOffline d a t stored (.sequence (m.map some))) := by
  refine Ensures.bind (hs.writable_ensures hT hK writableSlots_eq rfl) ?_
  intro items s₁ h₁
  rcases h₁ with ⟨rfl, hs₁⟩
  dsimp only
  rw [List.filter_map, hkeep, List.length_map, List.length_map]
  split
  next hall =>
    have hp := List.length_filter_eq_length_iff.mp hall
    apply Ensures.pure
    rw [List.filter_eq_self.mpr hp]
    exact ⟨by simpa using hp, hs₁.toTracks⟩
  next hsome =>
    refine Ensures.bind (putSlots_ensures hd hs₁ rfl) ?_
    intro _ s' hs'
    apply Ensures.pure
    refine ⟨?_, hs'⟩
    rw [List.length_filter_eq_length_iff] at hsome
    symm
    simpa using hsome

theorem retain_ensures (keep : T.Element → Bool) :
    Ensures s (retain keep)
      (fun _ => Tracks d a t stored (.sequence ((m.filter keep).map some)))
      (FailsOffline d a t stored (.sequence (m.map some))) := by
  have hkeep : (fun slot : Option T.Element => slot.all keep) ∘ some = keep := rfl
  refine Ensures.bind (keepSlots_ensures hT hK hd hs hkeep) ?_
  intro _ s' hs'
  exact Ensures.pure hs'.2

theorem removeAll_ensures (es : List T.Element) :
    Ensures s (removeAll es)
      (fun removed s' => removed = (m.any fun e => (es.map T.idOf).contains (T.idOf e)) ∧
        Tracks d a t stored
          (.sequence ((m.filter fun e => !(es.map T.idOf).contains (T.idOf e)).map some)) s')
      (FailsOffline d a t stored (.sequence (m.map some))) := by
  have hkeep : (fun slot : Option T.Element =>
      slot.all fun e => !(es.map T.idOf).contains (T.idOf e)) ∘ some =
        fun e => !(es.map T.idOf).contains (T.idOf e) := rfl
  have hremoved := keepSlots_ensures hT hK hd hs hkeep
  simp only [Bool.not_not] at hremoved
  exact hremoved

end Changes

end LazyList

namespace ListCall

section Performs

variable {d : Descriptor} {a : Attachment} (hT : T.Lawful d.shape) (hK : K.Restores)
include hT hK

theorem performs_size : Performs d a (fun c => c.1.run) (listModel T K) ⟨.size, trivial⟩ :=
  performs_of_value rfl (fun _ => rfl) fun _ _ _ _ hs => LazyList.size_ensures hT hK hs

theorem performs_isEmpty :
    Performs d a (fun c => c.1.run) (listModel T K) ⟨.isEmpty, trivial⟩ :=
  performs_of_value rfl (fun _ => rfl) fun _ _ _ _ hs => LazyList.isEmpty_ensures hT hK hs

theorem performs_get (i : Nat) :
    Performs d a (fun c => c.1.run) (listModel T K) ⟨.get i, trivial⟩ :=
  performs_of_result rfl (fun _ => rfl) fun _ _ _ _ hs => LazyList.get_yields hT hK hs i

theorem performs_indexOf (e : T.Element) :
    Performs d a (fun c => c.1.run) (listModel T K) ⟨.indexOf e, trivial⟩ :=
  performs_of_value rfl (fun _ => rfl) fun _ _ _ _ hs => LazyList.indexOf_ensures hT hK hs e

theorem performs_elements :
    Performs d a (fun c => c.1.run) (listModel T K) ⟨.elements, trivial⟩ :=
  performs_of_value rfl (fun _ => rfl) fun _ _ _ _ hs => LazyList.elements_ensures hT hK hs

theorem performs_slots : Performs d a (fun c => c.1.run) (listModel T K) ⟨.slots, trivial⟩ :=
  performs_of_value rfl (fun _ => rfl) fun _ _ _ _ hs =>
    hs.loaded_ensures hT hK LazyList.slots_eq rfl

theorem performs_clear : Performs d a (fun c => c.1.run) (listModel T K) ⟨.clear, trivial⟩ := by
  refine performs_of_done rfl (fun _ => rfl) fun m _ _ _ hs =>
    hs.clear_ensures hT hK LazyList.writableSlots_eq rfl fun hempty => ?_
  exact congrArg Aggregate.sequence (List.isEmpty_iff.mp hempty)

variable (hd : d.shape = .sequence)
include hd

theorem performs_contains (e : T.Element) :
    Performs d a (fun c => c.1.run) (listModel T K) ⟨.contains e, trivial⟩ :=
  performs_of_value rfl (fun _ => rfl) fun _ _ _ _ hs => LazyList.contains_ensures hT hK hs hd e

theorem performs_push (e : T.Element) :
    Performs d a (fun c => c.1.run) (listModel T K) ⟨.push e, trivial⟩ :=
  performs_of_done rfl (fun _ => rfl) fun _ _ _ _ hs => LazyList.push_ensures hT hK hd hs e

theorem performs_insert (i : Nat) (e : T.Element) :
    Performs d a (fun c => c.1.run) (listModel T K) ⟨.insert i e, trivial⟩ := by
  have hmodel : ∀ m : List T.Element, (listModel T K).answer ⟨.insert i e, trivial⟩ m =
      ((if i ≤ m.length then .ok () else .error (.bounds i m.length) : Except Error Unit).map
        fun _ => .done, if i ≤ m.length then m.insertIdx i e else m) := by
    intro m
    by_cases hi : i ≤ m.length
    · simp [listModel, hi, Except.map]
    · simp [listModel, hi, Except.map]
  exact performs_of_result rfl hmodel fun _ _ _ _ hs => LazyList.insert_yields hT hK hd hs i e

theorem performs_set (i : Nat) (e : T.Element) :
    Performs d a (fun c => c.1.run) (listModel T K) ⟨.set i e, trivial⟩ :=
  performs_of_result rfl (fun _ => rfl) fun _ _ _ _ hs => LazyList.set_yields hT hK hd hs i e

theorem performs_removeAt (i : Nat) :
    Performs d a (fun c => c.1.run) (listModel T K) ⟨.removeAt i, trivial⟩ :=
  performs_of_result rfl (fun _ => rfl) fun _ _ _ _ hs => LazyList.removeAt_yields hT hK hd hs i

theorem performs_remove (e : T.Element) :
    Performs d a (fun c => c.1.run) (listModel T K) ⟨.remove e, trivial⟩ :=
  performs_of_value rfl (fun _ => rfl) fun _ _ _ _ hs => LazyList.remove_ensures hT hK hd hs e

theorem performs_retain (keep : T.Element → Bool) :
    Performs d a (fun c => c.1.run) (listModel T K) ⟨.retain keep, trivial⟩ :=
  performs_of_done rfl (fun _ => rfl) fun _ _ _ _ hs => LazyList.retain_ensures hT hK hd hs keep

theorem performs_removeAll (es : List T.Element) :
    Performs d a (fun c => c.1.run) (listModel T K) ⟨.removeAll es, trivial⟩ :=
  performs_of_value rfl (fun _ => rfl) fun _ _ _ _ hs => LazyList.removeAll_ensures hT hK hd hs es

theorem performs (c : { c : ListCall T // c.OnVector }) :
    Performs d a (fun c => c.1.run) (listModel T K) c := by
  obtain ⟨c, hc⟩ := c
  cases c with
  | size => exact performs_size hT hK
  | isEmpty => exact performs_isEmpty hT hK
  | get i => exact performs_get hT hK i
  | contains e => exact performs_contains hT hK hd e
  | indexOf e => exact performs_indexOf hT hK e
  | elements => exact performs_elements hT hK
  | slots => exact performs_slots hT hK
  | push e => exact performs_push hT hK hd e
  | insert i e => exact performs_insert hT hK hd i e
  | set i e => exact performs_set hT hK hd i e
  | removeAt i => exact performs_removeAt hT hK hd i
  | remove e => exact performs_remove hT hK hd e
  | clear => exact performs_clear hT hK
  | retain keep => exact performs_retain hT hK hd keep
  | removeAll es => exact performs_removeAll hT hK hd es
  | extend es => exact hc.elim
  | setNull i => exact hc.elim

end Performs

end ListCall

/-- A lazy list over stored elements follows the vector of these elements, whatever is called and
whatever fails in between. -/
theorem lazyList_refines {env : Environment Database} {session : SessionId} {slot : Nat}
    {d : Descriptor} {owner : EntityId} {elements : List T.Element} (hT : T.Lawful .sequence)
    (hd : d.shape = .sequence) (hoffers : env.Offers session slot d owner)
    (hstores : env.source.store.StoresElements T d owner elements)
    (steps : List (Step { c : ListCall T // c.OnVector })) :
    ∃ c after,
      (EnvironmentAction.lazyCollection session slot d .sequence :
          EnvironmentAction Database (Collection T .unkeyed)).runOn env = (.ok c, after) ∧
        (⟨c, after⟩ : Setting T .unkeyed Database).logicalContents =
          .ok (.sequence (elements.map some)) ∧
        Follows (fun c => c.1.run) (listModel T .unkeyed) steps elements ⟨c, after⟩ := by
  have hshape : d.shape ≠ .keyed := by
    rw [hd]
    nofun
  have horder := Aggregate.inOrder_sequence (K := .unkeyed) elements
  have hholds := hstores.holdsAt_sequence (K := .unkeyed) hT.toStorable hd
  rw [← hd] at hT horder
  have hidentifies := hstores.identifies hT.toStorable (hT.storableId hshape)
  exact lazyCollection_follows hT Scalar.restores_unkeyed hoffers hd horder hholds
    (fun _ => hidentifies) (ListCall.performs hT Scalar.restores_unkeyed hd) steps

theorem lazyList_refines_notes :
    ∃ store,
      Store.seedElements (.ofScalar .text) {} ⟨⟨"Order.notes"⟩, .sequence, {}⟩ (.filled 0)
          ["fragile", "urgent", "fragile"] = .ok store ∧
      ∃ c after,
        (EnvironmentAction.lazyCollection ⟨0⟩ 0 ⟨⟨"Order.notes"⟩, .sequence, {}⟩ .sequence :
            EnvironmentAction Database (Collection (.ofScalar .text) .unkeyed)).runOn
          (.serving store (.filled 0)) = (.ok c, after) ∧
        (⟨c, after⟩ : Setting (.ofScalar .text) .unkeyed Database).logicalContents =
          .ok (.sequence [some "fragile", some "urgent", some "fragile"]) ∧
        Follows (fun c => c.1.run) (listModel (.ofScalar .text) .unkeyed)
          [.call ⟨.push "heavy", trivial⟩, .call ⟨.remove "fragile", trivial⟩, .flush,
            .call ⟨.set 7 "late", trivial⟩, .setOffline true, .refuseNext, .flush]
          ["fragile", "urgent", "fragile"] ⟨c, after⟩ := by
  obtain ⟨store, hseed⟩ : ∃ store,
      Store.seedElements (.ofScalar .text) {} ⟨⟨"Order.notes"⟩, .sequence, {}⟩ (.filled 0)
        ["fragile", "urgent", "fragile"] = .ok store := ⟨_, rfl⟩
  obtain ⟨hoffers, hstore⟩ := Environment.offers_serving store ⟨⟨"Order.notes"⟩, .sequence, {}⟩
    (.filled 0)
  have hstores := Store.storesElements_of_seedElements hseed
  rw [← hstore] at hstores
  exact ⟨store, hseed, lazyList_refines
    (ElementType.lawful_ofScalar Scalar.restores_text nofun .sequence) rfl hoffers hstores _⟩

end LazyCollections
