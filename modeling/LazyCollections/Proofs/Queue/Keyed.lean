import LazyCollections.Proofs.Queue.Unkeyed

/-!
# The work of a queue on keyed collections

A change is found by its key alone. A removal takes back an insertion or a change of the entry
before it deletes the row, and a replacement changes what is there already.
-/

namespace LazyCollections

set_option autoImplicit false

variable {T : ElementType} {K : Scalar}

namespace QueueWork

def entryChange (e : K.Carrier × T.Element) : ElementChange T.Element K.Carrier :=
  ⟨.key e.1, e.2⟩

def entryUpdate (u : K.Carrier × T.Element × T.Element) : ElementUpdate T.Element K.Carrier :=
  ⟨.key u.1, u.2.1, u.2.2⟩

/-- Work on a keyed collection: some entries are erased, some are changed, and new ones are
inserted, each key once. -/
structure OnKeyed (w : QueueWork T.Element K.Carrier) (base items : SortedMap K.Carrier T.Element)
    (gone : List (K.Carrier × T.Element)) (changed : List (K.Carrier × T.Element × T.Element))
    (added : List (K.Carrier × T.Element)) : Prop where
  deletions : w.changes.deletions = gone.map entryChange
  updates : w.changes.updates = changed.map entryUpdate
  insertions : w.changes.insertions = added.map entryChange
  truncated : w.changes.truncate = true → changed = []
  distinct_changed : changed.Pairwise fun a b => a.1 ≠ b.1
  distinct_added : added.Pairwise fun a b => a.1 ≠ b.1
  fresh : ∀ e ∈ added, (kept w.changes.truncate base (gone.map Prod.fst)).get? e.1 = none ∧
    ∀ u ∈ changed, u.1 ≠ e.1
  items_eq : items = added.foldl (fun m e => m.insert e.1 e.2)
    (changed.foldl (fun m u => m.insert u.1 u.2.2)
      (kept w.changes.truncate base (gone.map Prod.fst)))

section Keys

variable {α : Type} {key : α → K.Carrier} {xs : List α} {k : K.Carrier}

theorem unique_of_distinct (h : xs.Pairwise fun a b => key a ≠ key b) (k : K.Carrier) :
    xs.Pairwise fun a b => ¬(decide (key a = k) = true ∧ decide (key b = k) = true) := by
  refine h.imp fun hne hboth => hne ?_
  exact (of_decide_eq_true hboth.1).trans (of_decide_eq_true hboth.2).symm

theorem filter_eq_self_of_notMem (h : ∀ x ∈ xs, decide (key x = k) = false) :
    (xs.filter fun x => !decide (key x = k)) = xs :=
  List.filter_eq_self.mpr fun x hx => by rw [h x hx]; rfl

theorem concerns_entryChange (k : K.Carrier) (e : T.Element) :
    concerns (.key k) e ∘ entryChange = fun d => decide (d.1 = k) := by
  funext d
  simp [concerns, entryChange]

theorem slot_entryUpdate (k : K.Carrier) :
    (fun u : ElementUpdate T.Element K.Carrier => decide (u.slot = .key k)) ∘ entryUpdate =
      fun u => decide (u.1 = k) := by
  funext u
  simp [entryUpdate]

theorem takeLast?_entryChanges (added : List (K.Carrier × T.Element)) (k : K.Carrier)
    (e : T.Element) :
    takeLast? (concerns (.key k) e) (added.map entryChange) =
      (takeLast? (fun d => decide (d.1 = k)) added).map fun r =>
        (entryChange r.1, r.2.map entryChange) := by
  rw [takeLast?_map, concerns_entryChange]

theorem changeLast?_entryChanges (added : List (K.Carrier × T.Element)) (k : K.Carrier)
    (e new : T.Element) :
    changeLast? (concerns (.key k) e) (fun c => { c with element := new })
        (added.map entryChange) =
      (changeLast? (fun d => decide (d.1 = k)) (fun d => (d.1, new)) added).map
        (List.map entryChange) := by
  have hchange : ∀ d : K.Carrier × T.Element,
      ({ entryChange d with element := new } : ElementChange T.Element K.Carrier) =
        entryChange (d.1, new) := fun _ => rfl
  rw [changeLast?_map hchange, concerns_entryChange]

theorem takeLast?_entryUpdates (changed : List (K.Carrier × T.Element × T.Element))
    (k : K.Carrier) :
    takeLast? (fun u => decide (u.slot = .key k)) (changed.map entryUpdate) =
      (takeLast? (fun u => decide (u.1 = k)) changed).map fun r =>
        (entryUpdate r.1, r.2.map entryUpdate) := by
  rw [takeLast?_map, slot_entryUpdate]

theorem changeLast?_entryUpdates (changed : List (K.Carrier × T.Element × T.Element))
    (k : K.Carrier) (new : T.Element) :
    changeLast? (fun u => decide (u.slot = .key k)) (fun u => { u with element := new })
        (changed.map entryUpdate) =
      (changeLast? (fun u => decide (u.1 = k)) (fun u => (u.1, u.2.1, new)) changed).map
        (List.map entryUpdate) := by
  have hchange : ∀ u : K.Carrier × T.Element × T.Element,
      ({ entryUpdate u with element := new } : ElementUpdate T.Element K.Carrier) =
        entryUpdate (u.1, u.2.1, new) := fun _ => rfl
  rw [changeLast?_map hchange, slot_entryUpdate]

end Keys

section OnKeyed

variable {w : QueueWork T.Element K.Carrier} {base items : SortedMap K.Carrier T.Element}
variable {gone added : List (K.Carrier × T.Element)}
variable {changed : List (K.Carrier × T.Element × T.Element)} {k : K.Carrier} {e : T.Element}

theorem OnKeyed.truncate_eq_false (h : w.OnKeyed base items gone changed added)
    (hsome : items.get? k ≠ none) (hadded : ∀ d ∈ added, decide (d.1 = k) = false) :
    w.changes.truncate = false := by
  cases htrue : w.changes.truncate with
  | false => rfl
  | true =>
    refine absurd ?_ hsome
    rw [h.items_eq, h.truncated htrue, htrue, SortedMap.get?_foldl_insert_eq_none_iff]
    exact ⟨get?_kept_of_truncate base _ k, fun d hd => of_decide_eq_false (hadded d hd)⟩

theorem OnKeyed.erase_eq (h : w.OnKeyed base items gone changed added) (k : K.Carrier) :
    items.erase k = (added.filter fun d => !decide (d.1 = k)).foldl (fun m d => m.insert d.1 d.2)
      ((changed.filter fun u => !decide (u.1 = k)).foldl (fun m u => m.insert u.1 u.2.2)
        ((kept w.changes.truncate base (gone.map Prod.fst)).erase k)) := by
  rw [h.items_eq, SortedMap.erase_foldl_insert (p := fun d => !decide (d.1 = k)) (by simp),
    SortedMap.erase_foldl_insert (p := fun u => !decide (u.1 = k)) (by simp)]

/-- The row of an entry that is not inserted is deleted, and any change of it is dropped. -/
theorem OnKeyed.deleteRow (h : w.OnKeyed base items gone changed added)
    (hkept : w.changes.truncate = false) (hadded : ∀ d ∈ added, decide (d.1 = k) = false)
    (displaced : List T.Element) :
    OnKeyed
      { changes := { w.changes with
          deletions := w.changes.deletions ++ [entryChange (k, e)]
          updates := (changed.filter fun u => !decide (u.1 = k)).map entryUpdate }
        displaced }
      base (items.erase k) (gone ++ [(k, e)]) (changed.filter fun u => !decide (u.1 = k))
      added := by
  have hgone : kept w.changes.truncate base ((gone ++ [(k, e)]).map Prod.fst) =
      (kept w.changes.truncate base (gone.map Prod.fst)).erase k := by
    rw [List.map_append]
    exact kept_append _ _ _ _
  have herased := h.erase_eq k
  rw [filter_eq_self_of_notMem hadded] at herased
  refine ⟨?_, rfl, h.insertions, ?_, h.distinct_changed.filter _, h.distinct_added, ?_, ?_⟩
  · rw [h.deletions, List.map_append]
    rfl
  · intro htrue
    rw [hkept] at htrue
    cases htrue
  · intro d hd
    rw [hgone]
    refine ⟨SortedMap.get?_foldl_erase_of_none (h.fresh d hd).1 [k], ?_⟩
    exact fun u hu => (h.fresh d hd).2 u (List.mem_filter.mp hu).1
  · rw [hgone]
    exact herased

theorem OnKeyed.put (h : w.OnKeyed base items gone changed added) (hnone : items.get? k = none) :
    (w.addOp (.add (.key k) e)).OnKeyed base (items.insert k e) gone changed
      (added ++ [(k, e)]) := by
  rw [h.items_eq, SortedMap.get?_foldl_insert_eq_none_iff,
    SortedMap.get?_foldl_insert_eq_none_iff] at hnone
  obtain ⟨⟨hkept, hchanged⟩, hadded⟩ := hnone
  refine ⟨h.deletions, h.updates, ?_, h.truncated, h.distinct_changed, ?_, ?_, ?_⟩
  · rw [QueueWork.addOp, h.insertions, List.map_append]
    rfl
  · refine List.pairwise_append.mpr ⟨h.distinct_added, List.pairwise_singleton _ _, ?_⟩
    intro a ha b hb
    rw [List.mem_singleton.mp hb]
    exact hadded a ha
  · intro d hd
    rcases List.mem_append.mp hd with hd | hd
    · exact h.fresh d hd
    · rw [List.mem_singleton.mp hd]
      exact ⟨hkept, hchanged⟩
  · rw [List.foldl_append, h.items_eq]
    rfl

theorem OnKeyed.takeAdded (h : w.OnKeyed base items gone changed added)
    {d : K.Carrier × T.Element} {rest : List (K.Carrier × T.Element)}
    (hadd : takeLast? (fun d => decide (d.1 = k)) added = some (d, rest)) :
    (w.addOp (.remove (.key k) e)).OnKeyed base (items.erase k) gone changed rest := by
  obtain ⟨hkey, hmem, rfl⟩ := takeLast?_of_unique (unique_of_distinct h.distinct_added k) hadd
  obtain rfl : d.1 = k := of_decide_eq_true hkey
  have hwork : w.addOp (.remove (.key d.1) e) =
      { w with changes := { w.changes with
          insertions := (added.filter fun x => !decide (x.1 = d.1)).map entryChange } } := by
    simp [QueueWork.addOp, remove, h.insertions, takeLast?_entryChanges, hadd]
  have herased := h.erase_eq d.1
  rw [SortedMap.erase_of_none (h.fresh d hmem).1,
    filter_eq_self_of_notMem fun u hu => decide_eq_false ((h.fresh d hmem).2 u hu)] at herased
  rw [hwork]
  exact ⟨h.deletions, h.updates, rfl, h.truncated, h.distinct_changed,
    h.distinct_added.filter _, fun a ha => h.fresh a (List.mem_filter.mp ha).1, herased⟩

theorem OnKeyed.takeChanged (h : w.OnKeyed base items gone changed added)
    (hkept : w.changes.truncate = false) {u : K.Carrier × T.Element × T.Element}
    {rest : List (K.Carrier × T.Element × T.Element)}
    (hadd : takeLast? (fun d => decide (d.1 = k)) added = none)
    (hchange : takeLast? (fun u => decide (u.1 = k)) changed = some (u, rest)) :
    (w.addOp (.remove (.key k) e)).OnKeyed base (items.erase k) (gone ++ [(k, u.2.1)]) rest
      added := by
  obtain ⟨-, -, rfl⟩ := takeLast?_of_unique (unique_of_distinct h.distinct_changed k) hchange
  have hwork : w.addOp (.remove (.key k) e) =
      { changes := { w.changes with
          deletions := w.changes.deletions ++ [entryChange (k, u.2.1)]
          updates := (changed.filter fun x => !decide (x.1 = k)).map entryUpdate }
        displaced := w.displaced ++ [u.2.1] } := by
    simp [QueueWork.addOp, remove, h.insertions, h.updates, takeLast?_entryChanges,
      takeLast?_entryUpdates, hadd, hchange, delete, hkept]
    exact ⟨rfl, rfl⟩
  rw [hwork]
  exact h.deleteRow hkept (takeLast?_eq_none_iff.mp hadd) _

theorem OnKeyed.takeStored (h : w.OnKeyed base items gone changed added)
    (hkept : w.changes.truncate = false)
    (hadd : takeLast? (fun d => decide (d.1 = k)) added = none)
    (hchange : takeLast? (fun u => decide (u.1 = k)) changed = none) :
    (w.addOp (.remove (.key k) e)).OnKeyed base (items.erase k) (gone ++ [(k, e)]) changed
      added := by
  have hwork : w.addOp (.remove (.key k) e) =
      { changes := { w.changes with
          deletions := w.changes.deletions ++ [entryChange (k, e)]
          updates := changed.map entryUpdate }
        displaced := w.displaced ++ [e] } := by
    rw [← h.updates]
    simp [QueueWork.addOp, remove, h.insertions, h.updates, takeLast?_entryChanges,
      takeLast?_entryUpdates, hadd, hchange, delete, hkept]
    rfl
  have hdeleted := h.deleteRow (e := e) hkept (takeLast?_eq_none_iff.mp hadd) (w.displaced ++ [e])
  rw [filter_eq_self_of_notMem (takeLast?_eq_none_iff.mp hchange)] at hdeleted
  rw [hwork]
  exact hdeleted

theorem OnKeyed.take (h : w.OnKeyed base items gone changed added)
    (hsome : items.get? k ≠ none) :
    ∃ gone' changed' added',
      (w.addOp (.remove (.key k) e)).OnKeyed base (items.erase k) gone' changed' added' := by
  cases hadd : takeLast? (fun d => decide (d.1 = k)) added with
  | some found => exact ⟨_, _, _, h.takeAdded hadd⟩
  | none =>
    have hkept := h.truncate_eq_false hsome (takeLast?_eq_none_iff.mp hadd)
    cases hchange : takeLast? (fun u => decide (u.1 = k)) changed with
    | some found => exact ⟨_, _, _, h.takeChanged hkept hadd hchange⟩
    | none => exact ⟨_, _, _, h.takeStored hkept hadd hchange⟩

theorem OnKeyed.replaceAdded (h : w.OnKeyed base items gone changed added) {new : T.Element}
    {rest : List (K.Carrier × T.Element)}
    (hadd : changeLast? (fun d => decide (d.1 = k)) (fun d => (d.1, new)) added = some rest) :
    (w.addOp (.replace (.key k) e new)).OnKeyed base (items.insert k new) gone changed rest := by
  have hwork : w.addOp (.replace (.key k) e new) =
      { w with changes := { w.changes with insertions := rest.map entryChange } } := by
    simp [QueueWork.addOp, QueueWork.replace, h.insertions, changeLast?_entryChanges, hadd]
  obtain ⟨⟨d, hd, hkey⟩, rfl⟩ :=
    changeLast?_of_unique (unique_of_distinct h.distinct_added k) hadd
  have hkeys : ∀ d : K.Carrier × T.Element,
      (if decide (d.1 = k) then (d.1, new) else d).1 = d.1 := fun d => by split <;> rfl
  rw [hwork]
  refine ⟨h.deletions, h.updates, rfl, h.truncated, h.distinct_changed, ?_, ?_, ?_⟩
  · rw [List.pairwise_map]
    simp only [hkeys]
    exact h.distinct_added
  · intro a ha
    obtain ⟨b, hb, rfl⟩ := List.mem_map.mp ha
    rw [hkeys]
    exact h.fresh b hb
  · rw [h.items_eq]
    refine SortedMap.insert_foldl_insert_of_mem hkeys h.distinct_added ?_ ?_
      ⟨d, hd, of_decide_eq_true hkey⟩ _
    · intro x _ hx
      simp [hx]
    · intro x _ hx
      simp [hx]

theorem OnKeyed.replaceChanged (h : w.OnKeyed base items gone changed added) {new : T.Element}
    {rest : List (K.Carrier × T.Element × T.Element)}
    (hadd : changeLast? (fun d => decide (d.1 = k)) (fun d => (d.1, new)) added = none)
    (hchange : changeLast? (fun u => decide (u.1 = k)) (fun u => (u.1, u.2.1, new)) changed =
      some rest) :
    (w.addOp (.replace (.key k) e new)).OnKeyed base (items.insert k new) gone rest added := by
  have hwork : w.addOp (.replace (.key k) e new) =
      { w with changes := { w.changes with updates := rest.map entryUpdate } } := by
    simp [QueueWork.addOp, QueueWork.replace, h.insertions, h.updates,
      changeLast?_entryChanges, changeLast?_entryUpdates, hadd, hchange]
  obtain ⟨⟨u, hu, hkey⟩, rfl⟩ :=
    changeLast?_of_unique (unique_of_distinct h.distinct_changed k) hchange
  have hadded : ∀ d ∈ added, d.1 ≠ k := fun d hd =>
    of_decide_eq_false (changeLast?_eq_none_iff.mp hadd d hd)
  have hkeys : ∀ u : K.Carrier × T.Element × T.Element,
      (if decide (u.1 = k) then (u.1, u.2.1, new) else u).1 = u.1 := fun u => by split <;> rfl
  rw [hwork]
  refine ⟨h.deletions, rfl, h.insertions, ?_, ?_, h.distinct_added, ?_, ?_⟩
  · intro htrue
    rw [h.truncated htrue]
    rfl
  · rw [List.pairwise_map]
    simp only [hkeys]
    exact h.distinct_changed
  · intro d hd
    refine ⟨(h.fresh d hd).1, ?_⟩
    intro x hx
    obtain ⟨y, hy, rfl⟩ := List.mem_map.mp hx
    rw [hkeys]
    exact (h.fresh d hd).2 y hy
  · rw [h.items_eq, SortedMap.insert_foldl_insert_of_notMem hadded]
    congr 1
    refine SortedMap.insert_foldl_insert_of_mem hkeys h.distinct_changed ?_ ?_
      ⟨u, hu, of_decide_eq_true hkey⟩ _
    · intro x _ hx
      simp [hx]
    · intro x _ hx
      simp [hx]

theorem OnKeyed.replaceStored (h : w.OnKeyed base items gone changed added)
    (hkept : w.changes.truncate = false) {new : T.Element}
    (hadd : changeLast? (fun d => decide (d.1 = k)) (fun d => (d.1, new)) added = none)
    (hchange : changeLast? (fun u => decide (u.1 = k)) (fun u => (u.1, u.2.1, new)) changed =
      none) :
    (w.addOp (.replace (.key k) e new)).OnKeyed base (items.insert k new) gone
      (changed ++ [(k, e, new)]) added := by
  have hwork : w.addOp (.replace (.key k) e new) =
      { changes := { w.changes with updates := (changed ++ [(k, e, new)]).map entryUpdate }
        displaced := w.displaced ++ [e] } := by
    simp [QueueWork.addOp, QueueWork.replace, h.insertions, h.updates,
      changeLast?_entryChanges, changeLast?_entryUpdates, hadd, hchange, entryUpdate]
  have hadded : ∀ d ∈ added, d.1 ≠ k := fun d hd =>
    of_decide_eq_false (changeLast?_eq_none_iff.mp hadd d hd)
  rw [hwork]
  refine ⟨h.deletions, rfl, h.insertions, ?_, ?_, h.distinct_added, ?_, ?_⟩
  · intro htrue
    rw [hkept] at htrue
    cases htrue
  · refine List.pairwise_append.mpr ⟨h.distinct_changed, List.pairwise_singleton _ _, ?_⟩
    intro a ha b hb
    rw [List.mem_singleton.mp hb]
    exact of_decide_eq_false (changeLast?_eq_none_iff.mp hchange a ha)
  · intro d hd
    refine ⟨(h.fresh d hd).1, ?_⟩
    intro x hx
    rcases List.mem_append.mp hx with hx | hx
    · exact (h.fresh d hd).2 x hx
    · rw [List.mem_singleton.mp hx]
      exact fun heq => hadded d hd heq.symm
  · rw [h.items_eq, SortedMap.insert_foldl_insert_of_notMem hadded, List.foldl_append]
    rfl

theorem OnKeyed.replace (h : w.OnKeyed base items gone changed added)
    (hsome : items.get? k ≠ none) (new : T.Element) :
    ∃ changed' added',
      (w.addOp (.replace (.key k) e new)).OnKeyed base (items.insert k new) gone changed'
        added' := by
  cases hadd : changeLast? (fun d => decide (d.1 = k)) (fun d => (d.1, new)) added with
  | some rest => exact ⟨_, _, h.replaceAdded hadd⟩
  | none =>
    have hkept := h.truncate_eq_false hsome (changeLast?_eq_none_iff.mp hadd)
    cases hchange : changeLast? (fun u => decide (u.1 = k)) (fun u => (u.1, u.2.1, new))
        changed with
    | some rest => exact ⟨_, _, h.replaceChanged hadd hchange⟩
    | none => exact ⟨_, _, h.replaceStored hkept hadd hchange⟩

theorem OnKeyed.addOp {queue : List (QueuedOp T.Element K.Carrier)}
    {op : QueuedOp T.Element K.Carrier} {next : Aggregate T K}
    (h : w.OnKeyed base items gone changed added) (step : QueueStep queue (.keyed items) op next) :
    ∃ items' gone' changed' added', next = .keyed items' ∧
      (w.addOp op).OnKeyed base items' gone' changed' added' := by
  cases step with
  | clear =>
    refine ⟨∅, [], [], [], rfl, ?_⟩
    exact ⟨rfl, rfl, rfl, fun _ => rfl, List.Pairwise.nil, List.Pairwise.nil,
      fun e he => absurd he List.not_mem_nil, rfl⟩
  | put _ k e hnone => exact ⟨_, _, _, _, rfl, h.put hnone⟩
  | replace _ k old new hold =>
    obtain ⟨changed', added', hwork⟩ := h.replace (e := old) (by rw [hold]; nofun) new
    exact ⟨_, _, _, _, rfl, hwork⟩
  | take _ k old hold =>
    obtain ⟨gone', changed', added', hwork⟩ := h.take (e := old) (by rw [hold]; nofun)
    exact ⟨_, _, _, _, rfl, hwork⟩

end OnKeyed

end QueueWork

end LazyCollections
