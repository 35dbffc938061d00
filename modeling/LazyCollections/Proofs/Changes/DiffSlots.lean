import LazyCollections.Changes.Diff
import LazyCollections.Proofs.Aggregate.Places
import LazyCollections.Proofs.Changes.CarryOut
import LazyCollections.Proofs.SortedMap.Folds

/-!
# Differences slot by slot

What a difference of sequences or of keyed collections leaves at each slot, whatever the elements
are: the new element, unless its state is that of the old one, which then stays. The identities of
the two play no part in it.
-/

namespace LazyCollections

set_option autoImplicit false

variable {T : ElementType} {K : Scalar}

/-- What a difference leaves at a slot, given the old and the new element there. -/
def settled (T : ElementType) : Option T.Element → Option T.Element → Option T.Element
  | some o, some n => if T.isDirty n o then some n else some o
  | _, new => new

def Aggregate.elementAt? : Aggregate T K → Slot K.Carrier → Option T.Element
  | sequence slots, .index i => slots[i]?.join
  | keyed items, .key k => items.get? k
  | _, _ => none

section Entries

variable {κ : Type} [Ord κ] {old new : SortedMap κ T.Element}

theorem entriesUnchanged_iff :
    entriesUnchanged T old new = true ↔ old.size = new.size ∧
      ∀ e ∈ new.entries, ∃ o, old.get? e.1 = some o ∧ T.isDirty e.2 o = false := by
  simp [entriesUnchanged, Option.any_eq_true]

variable [Std.LawfulEqOrd κ] {e : κ × T.Element} {c : κ × T.Element × T.Element}

theorem mem_removedEntries :
    e ∈ removedEntries old new ↔ old.get? e.1 = some e.2 ∧ new.get? e.1 = none := by
  rw [removedEntries, List.mem_filter, ← SortedMap.get?_eq_some_iff, Bool.not_eq_true',
    SortedMap.contains_eq_false_iff]

theorem mem_addedEntries :
    e ∈ addedEntries old new ↔ new.get? e.1 = some e.2 ∧ old.get? e.1 = none := by
  rw [addedEntries, List.mem_filter, ← SortedMap.get?_eq_some_iff, Bool.not_eq_true',
    SortedMap.contains_eq_false_iff]

theorem mem_changedEntries :
    c ∈ changedEntries old new ↔
      old.get? c.1 = some c.2.1 ∧ new.get? c.1 = some c.2.2 ∧ T.isDirty c.2.2 c.2.1 = true := by
  obtain ⟨k, o, n⟩ := c
  rw [changedEntries, List.mem_filterMap]
  constructor
  · rintro ⟨e, he, hsome⟩
    split at hsome
    next found hold =>
      split at hsome
      next hdirty =>
        cases hsome
        exact ⟨hold, SortedMap.get?_eq_some_iff.mpr he, hdirty⟩
      next => cases hsome
    next => cases hsome
  · rintro ⟨hold, hnew, hdirty⟩
    refine ⟨(k, n), SortedMap.get?_eq_some_iff.mp hnew, ?_⟩
    simp only [hold, hdirty, if_true]

end Entries

section Slots

variable {ε : Type}

/-- Steps that each change one slot, done for the slots from the first on. -/
theorem join_getElem?_foldl_range {f : List (Option ε) → Nat → List (Option ε)}
    {g : Nat → Option ε → Option ε}
    (h : ∀ slots i j, (f slots i)[j]?.join = if i = j then g i slots[j]?.join else slots[j]?.join)
    (slots : List (Option ε)) (n j : Nat) :
    ((List.range n).foldl f slots)[j]?.join =
      if j < n then g j slots[j]?.join else slots[j]?.join := by
  induction n with
  | zero => rfl
  | succ n ih =>
    rw [List.range_succ, List.foldl_append, List.foldl_cons, List.foldl_nil, h, ih]
    by_cases hjn : n = j
    · subst hjn
      simp
    · have hiff : j < n + 1 ↔ j < n := by omega
      simp only [hjn, hiff, if_false]

end Slots

section Sequences

variable (old new : List (Option T.Element))

def deleteSlot (slots : List (Option T.Element)) (i : Nat) : List (Option T.Element) :=
  match old[i]?.join, new[i]?.join with
  | some _, none => slots.set i none
  | _, _ => slots

def updateSlot (slots : List (Option T.Element)) (i : Nat) : List (Option T.Element) :=
  match old[i]?.join, new[i]?.join with
  | some o, some n => if T.isDirty n o then Builder.writeSlot slots i (some n) else slots
  | _, _ => slots

def insertSlot (slots : List (Option T.Element)) (i : Nat) : List (Option T.Element) :=
  match old[i]?.join, new[i]?.join with
  | none, some n => Builder.writeSlot slots i (some n)
  | _, _ => slots

theorem foldl_deletions_diffSequence (slots : List (Option T.Element)) :
    (diffSequence old new : ChangeSet T.Element K.Carrier).deletions.foldl
        (fun a d => a.deleteRow d.slot d.element) (.sequence slots) =
      (.sequence ((List.range (max old.length new.length)).foldl (deleteSlot old new) slots) :
        Aggregate T K) := by
  rw [diffSequence, slotPairs, List.foldl_filterMap, List.foldl_map]
  refine List.foldl_hom (Aggregate.sequence (T := T) (K := K)) fun slots i => ?_
  unfold deleteSlot
  cases old[i]?.join <;> cases new[i]?.join <;> rfl

theorem foldl_updates_diffSequence (slots : List (Option T.Element)) :
    (diffSequence old new : ChangeSet T.Element K.Carrier).updates.foldl
        (fun a u => a.writeRow u.slot u.element) (.sequence slots) =
      (.sequence ((List.range (max old.length new.length)).foldl (updateSlot old new) slots) :
        Aggregate T K) := by
  rw [diffSequence, slotPairs, List.foldl_filterMap, List.foldl_map]
  refine List.foldl_hom (Aggregate.sequence (T := T) (K := K)) fun slots i => ?_
  unfold updateSlot
  cases old[i]?.join with
  | none => rfl
  | some o =>
    cases new[i]?.join with
    | none => rfl
    | some n => cases hdirty : T.isDirty n o <;> simp [hdirty, Aggregate.writeRow]

theorem foldl_insertions_diffSequence (slots : List (Option T.Element)) :
    (diffSequence old new : ChangeSet T.Element K.Carrier).insertions.foldl
        (fun a d => a.writeRow d.slot d.element) (.sequence slots) =
      (.sequence ((List.range (max old.length new.length)).foldl (insertSlot old new) slots) :
        Aggregate T K) := by
  rw [diffSequence, slotPairs, List.foldl_filterMap, List.foldl_map]
  refine List.foldl_hom (Aggregate.sequence (T := T) (K := K)) fun slots i => ?_
  unfold insertSlot
  cases old[i]?.join <;> cases new[i]?.join <;> rfl

theorem carryOut_diffSequence_eq (base : List (Option T.Element)) :
    (diffSequence old new : ChangeSet T.Element K.Carrier).carryOut (.sequence base) =
      .sequence (Aggregate.dropTrailingNulls
        ((List.range (max old.length new.length)).foldl (insertSlot old new)
          ((List.range (max old.length new.length)).foldl (updateSlot old new)
            ((List.range (max old.length new.length)).foldl (deleteSlot old new) base)))) := by
  have hbase : (if (diffSequence old new : ChangeSet T.Element K.Carrier).truncate then
      (Aggregate.sequence base : Aggregate T K).cleared else .sequence base) = .sequence base := rfl
  rw [ChangeSet.carryOut, hbase, foldl_deletions_diffSequence, foldl_updates_diffSequence,
    foldl_insertions_diffSequence]
  rfl

theorem join_getElem?_deleteSlot (slots : List (Option T.Element)) (i j : Nat) :
    (deleteSlot old new slots i)[j]?.join =
      if i = j then
        match old[i]?.join, new[i]?.join with
        | some _, none => none
        | _, _ => slots[j]?.join
      else slots[j]?.join := by
  unfold deleteSlot
  cases old[i]?.join <;> cases new[i]?.join <;> simp [join_getElem?_set_none]

theorem join_getElem?_updateSlot (slots : List (Option T.Element)) (i j : Nat) :
    (updateSlot old new slots i)[j]?.join =
      if i = j then
        match old[i]?.join, new[i]?.join with
        | some o, some n => if T.isDirty n o then some n else slots[j]?.join
        | _, _ => slots[j]?.join
      else slots[j]?.join := by
  unfold updateSlot
  cases old[i]?.join with
  | none => simp
  | some o =>
    cases new[i]?.join with
    | none => simp
    | some n => cases hdirty : T.isDirty n o <;> simp [hdirty, join_getElem?_writeSlot]

theorem join_getElem?_insertSlot (slots : List (Option T.Element)) (i j : Nat) :
    (insertSlot old new slots i)[j]?.join =
      if i = j then
        match old[i]?.join, new[i]?.join with
        | none, some n => some n
        | _, _ => slots[j]?.join
      else slots[j]?.join := by
  unfold insertSlot
  cases old[i]?.join <;> cases new[i]?.join <;> simp [join_getElem?_writeSlot]

/-- What a difference leaves in the slots of a sequence that has the old elements, whatever null
slots it ends with. -/
theorem carryOut_diffSequence_slots_of_join_eq {base : List (Option T.Element)}
    (hbase : ∀ j : Nat, base[j]?.join = old[j]?.join) :
    ∃ slots, (diffSequence old new : ChangeSet T.Element K.Carrier).carryOut (.sequence base) =
        .sequence (Aggregate.dropTrailingNulls slots) ∧
      ∀ j : Nat, slots[j]?.join = settled T old[j]?.join new[j]?.join := by
  refine ⟨_, carryOut_diffSequence_eq old new base, ?_⟩
  intro j
  rw [join_getElem?_foldl_range (g := fun i slot => match old[i]?.join, new[i]?.join with
      | none, some n => some n
      | _, _ => slot) (join_getElem?_insertSlot old new),
    join_getElem?_foldl_range (g := fun i slot => match old[i]?.join, new[i]?.join with
      | some o, some n => if T.isDirty n o then some n else slot
      | _, _ => slot) (join_getElem?_updateSlot old new),
    join_getElem?_foldl_range (g := fun i slot => match old[i]?.join, new[i]?.join with
      | some _, none => none
      | _, _ => slot) (join_getElem?_deleteSlot old new), hbase]
  by_cases hj : j < max old.length new.length
  · simp only [if_pos hj]
    cases hold : old[j]?.join with
    | none => cases hnew : new[j]?.join <;> rfl
    | some o => cases hnew : new[j]?.join <;> rfl
  · simp only [if_neg hj]
    rw [List.getElem?_eq_none (by omega), List.getElem?_eq_none (by omega)]
    rfl

theorem carryOut_diffSequence_slots :
    ∃ slots, (diffSequence old new : ChangeSet T.Element K.Carrier).carryOut (.sequence old) =
        .sequence (Aggregate.dropTrailingNulls slots) ∧
      ∀ j : Nat, slots[j]?.join = settled T old[j]?.join new[j]?.join :=
  carryOut_diffSequence_slots_of_join_eq old new fun _ => rfl

end Sequences

section Maps

variable {old new : SortedMap K.Carrier T.Element}

/-- All that a difference of keyed collections writes, updates before insertions. -/
def writtenEntries (old new : SortedMap K.Carrier T.Element) : List (K.Carrier × T.Element) :=
  (changedEntries old new).map (fun c => (c.1, c.2.2)) ++ addedEntries old new

theorem mem_writtenEntries {e : K.Carrier × T.Element} :
    e ∈ writtenEntries old new ↔
      e ∈ new.entries ∧ ∀ o, old.get? e.1 = some o → T.isDirty e.2 o = true := by
  rw [writtenEntries, List.mem_append, List.mem_map, mem_addedEntries,
    ← SortedMap.get?_eq_some_iff]
  constructor
  · rintro (⟨c, hc, rfl⟩ | ⟨hnew, hnone⟩)
    · obtain ⟨hold, hnew, hdirty⟩ := mem_changedEntries.mp hc
      refine ⟨hnew, ?_⟩
      intro o ho
      rw [hold] at ho
      cases ho
      exact hdirty
    · refine ⟨hnew, ?_⟩
      intro o ho
      rw [hnone] at ho
      cases ho
  · rintro ⟨hnew, hdirty⟩
    cases hget : old.get? e.1 with
    | none => exact Or.inr ⟨hnew, rfl⟩
    | some o =>
      have hchanged : (e.1, o, e.2) ∈ changedEntries old new :=
        mem_changedEntries.mpr ⟨hget, hnew, hdirty o hget⟩
      exact Or.inl ⟨(e.1, o, e.2), hchanged, rfl⟩

theorem eq_of_mem_writtenEntries {k : K.Carrier} {n : T.Element} (hnew : new.get? k = some n) :
    ∀ e ∈ writtenEntries old new, e.1 = k → e.2 = n := by
  rintro e he rfl
  rw [SortedMap.get?_eq_some_iff.mpr (mem_writtenEntries.mp he).1] at hnew
  exact Option.some.inj hnew

/-- The old entries without those that are gone, and with all that the difference writes. -/
def settledEntries (old new : SortedMap K.Carrier T.Element) : SortedMap K.Carrier T.Element :=
  (writtenEntries old new).foldl (fun m e => m.insert e.1 e.2)
    (((removedEntries old new).map Prod.fst).foldl SortedMap.erase old)

variable {k : K.Carrier} {o n : T.Element}

theorem get?_settledEntries_of_none (hnew : new.get? k = none) :
    (settledEntries old new).get? k = none := by
  have hnot : ∀ e ∈ writtenEntries old new, e.1 ≠ k := fun e he =>
    SortedMap.get?_eq_none_iff.mp hnew e (mem_writtenEntries.mp he).1
  rw [settledEntries, SortedMap.get?_foldl_insert_of_notMem hnot]
  cases hold : old.get? k with
  | none => exact SortedMap.get?_foldl_erase_of_none hold _
  | some o =>
    have hgone : (k, o) ∈ removedEntries old new := mem_removedEntries.mpr ⟨hold, hnew⟩
    exact SortedMap.get?_foldl_erase_of_mem (List.mem_map_of_mem hgone) old

theorem get?_settledEntries_of_written (hnew : new.get? k = some n)
    (hwritten : ∀ o, old.get? k = some o → T.isDirty n o = true) :
    (settledEntries old new).get? k = some n := by
  have hmem : (k, n) ∈ writtenEntries old new :=
    mem_writtenEntries.mpr ⟨SortedMap.get?_eq_some_iff.mp hnew, hwritten⟩
  exact SortedMap.get?_foldl_insert_of_mem (eq_of_mem_writtenEntries hnew) hmem _

theorem get?_settledEntries_of_unchanged (hold : old.get? k = some o) (hnew : new.get? k = some n)
    (hclean : T.isDirty n o = false) : (settledEntries old new).get? k = some o := by
  have hnot : ∀ e ∈ writtenEntries old new, e.1 ≠ k := by
    rintro e he rfl
    have hdirty := (mem_writtenEntries.mp he).2 o hold
    rw [eq_of_mem_writtenEntries hnew e he rfl, hclean] at hdirty
    cases hdirty
  have hkept : k ∉ (removedEntries old new).map Prod.fst := by
    intro hk
    obtain ⟨e, he, rfl⟩ := List.mem_map.mp hk
    rw [(mem_removedEntries.mp he).2] at hnew
    cases hnew
  rw [settledEntries, SortedMap.get?_foldl_insert_of_notMem hnot,
    SortedMap.get?_foldl_erase_of_notMem hkept, hold]

theorem carryOut_diffKeyed_keys (old new : SortedMap K.Carrier T.Element) :
    ∃ items, (diffKeyed old new : ChangeSet T.Element K.Carrier).carryOut (.keyed old) =
        .keyed items ∧ ∀ k, items.get? k = settled T (old.get? k) (new.get? k) := by
  refine ⟨settledEntries old new, ChangeSet.carryOut_keyed _ rfl rfl rfl old, ?_⟩
  intro k
  cases hnew : new.get? k with
  | none =>
    rw [get?_settledEntries_of_none hnew]
    cases old.get? k <;> rfl
  | some n =>
    cases hold : old.get? k with
    | none =>
      refine get?_settledEntries_of_written hnew fun o ho => ?_
      rw [hold] at ho
      cases ho
    | some o =>
      cases hdirty : T.isDirty n o with
      | true =>
        rw [settled, if_pos hdirty]
        refine get?_settledEntries_of_written hnew fun o' ho' => ?_
        rw [hold] at ho'
        cases ho'
        exact hdirty
      | false =>
        rw [get?_settledEntries_of_unchanged hold hnew hdirty, settled, hdirty]
        rfl

end Maps

theorem Aggregate.elementAt?_cases {a : Aggregate T K} {slot : Slot K.Carrier} {e : T.Element}
    (h : a.elementAt? slot = some e) :
    (∃ slots i, a = .sequence slots ∧ slot = .index i ∧ slots[i]?.join = some e) ∨
      ∃ items k, a = .keyed items ∧ slot = .key k ∧ items.get? k = some e := by
  cases a with
  | sequence slots =>
    cases slot with
    | index i => exact Or.inl ⟨slots, i, rfl, rfl, h⟩
    | unordered => cases h
    | key k => cases h
  | set items => cases slot <;> cases h
  | keyed items =>
    cases slot with
    | key k => exact Or.inr ⟨items, k, rfl, rfl, h⟩
    | unordered => cases h
    | index i => cases h

section Updates

theorem mem_diffSequence_updates {old new : List (Option T.Element)}
    {u : ElementUpdate T.Element K.Carrier} :
    u ∈ (diffSequence old new : ChangeSet T.Element K.Carrier).updates ↔
      ∃ i, u.slot = .index i ∧ old[i]?.join = some u.previous ∧ new[i]?.join = some u.element ∧
        T.isDirty u.element u.previous = true := by
  rw [diffSequence, List.mem_filterMap]
  constructor
  · rintro ⟨pair, hpair, hupdate⟩
    rw [slotPairs, List.mem_map] at hpair
    obtain ⟨i, _, rfl⟩ := hpair
    split at hupdate
    next j o n heq =>
      obtain ⟨rfl, ho, hn⟩ := by simpa only [Prod.mk.injEq] using heq
      split at hupdate
      next hdirty =>
        cases hupdate
        exact ⟨i, rfl, ho, hn, hdirty⟩
      next => cases hupdate
    next => cases hupdate
  · obtain ⟨slot, o, n⟩ := u
    rintro ⟨i, rfl, ho, hn, hdirty⟩
    have hi : i < old.length := by
      by_contra hlength
      rw [List.getElem?_eq_none (by omega)] at ho
      cases ho
    refine ⟨(i, some o, some n), ?_, by simp [hdirty]⟩
    rw [slotPairs, List.mem_map]
    exact ⟨i, List.mem_range.mpr (by omega), by rw [ho, hn]⟩

theorem mem_diffKeyed_updates {old new : SortedMap K.Carrier T.Element}
    {u : ElementUpdate T.Element K.Carrier} :
    u ∈ (diffKeyed old new : ChangeSet T.Element K.Carrier).updates ↔
      ∃ k, u.slot = .key k ∧ old.get? k = some u.previous ∧ new.get? k = some u.element ∧
        T.isDirty u.element u.previous = true := by
  rw [diffKeyed, List.mem_map]
  constructor
  · rintro ⟨c, hc, rfl⟩
    exact ⟨c.1, rfl, mem_changedEntries.mp hc⟩
  · obtain ⟨slot, o, n⟩ := u
    rintro ⟨k, rfl, hchanged⟩
    exact ⟨(k, o, n), mem_changedEntries.mpr hchanged, rfl⟩

variable {old new : Aggregate T K} {collectOrphans : Bool} {c : ChangeSet T.Element K.Carrier}

/-- The work of a difference is the same whether orphans are collected or not. -/
theorem diff_cases (h : diff (some old) new collectOrphans = .ok c) :
    ∃ rows, diffRows old new = .ok rows ∧ c.truncate = rows.truncate ∧
      c.deletions = rows.deletions ∧ c.updates = rows.updates ∧ c.insertions = rows.insertions := by
  rw [diff] at h
  cases hrows : diffRows old new with
  | error error =>
    rw [hrows] at h
    cases h
  | ok rows =>
    rw [hrows] at h
    cases collectOrphans <;> cases h <;> exact ⟨rows, rfl, rfl, rfl, rfl, rfl⟩

/-- The updates of a difference are the slots where both sides have an element and the state of
the new one is dirty. A set has no slots. -/
theorem mem_diff_updates (h : diff (some old) new collectOrphans = .ok c)
    {u : ElementUpdate T.Element K.Carrier} :
    u ∈ c.updates ↔ old.elementAt? u.slot = some u.previous ∧
      new.elementAt? u.slot = some u.element ∧ T.isDirty u.element u.previous = true := by
  obtain ⟨rows, hrows, _, _, hupdates, _⟩ := diff_cases h
  rw [hupdates]
  obtain ⟨slot, o, n⟩ := u
  cases old with
  | sequence old =>
    cases new with
    | sequence new =>
      cases hrows
      rw [mem_diffSequence_updates]
      cases slot <;> simp [Aggregate.elementAt?]
    | set | keyed => cases hrows
  | set old =>
    cases new with
    | set new =>
      cases hrows
      simp [diffSet, Aggregate.elementAt?]
    | sequence | keyed => cases hrows
  | keyed old =>
    cases new with
    | keyed new =>
      cases hrows
      rw [mem_diffKeyed_updates]
      cases slot <;> simp [Aggregate.elementAt?]
    | sequence | set => cases hrows

theorem elementAt?_carryOut_diff (h : diff (some old) new collectOrphans = .ok c)
    (hshape : old.shape ≠ .set) (slot : Slot K.Carrier) :
    (c.carryOut old).elementAt? slot = settled T (old.elementAt? slot) (new.elementAt? slot) := by
  obtain ⟨rows, hrows, htruncate, hdeletions, hupdates, hinsertions⟩ := diff_cases h
  have hcarry : c.carryOut old = rows.carryOut old := by
    rw [ChangeSet.carryOut, htruncate, hdeletions, hupdates, hinsertions]
    rfl
  rw [hcarry]
  cases old with
  | sequence old =>
    cases new with
    | sequence new =>
      cases hrows
      obtain ⟨slots, hslots, hleft⟩ := carryOut_diffSequence_slots (K := K) old new
      rw [hslots]
      cases slot with
      | index i =>
        simp only [Aggregate.elementAt?]
        rw [Aggregate.join_getElem?_dropTrailingNulls, hleft]
      | unordered | key => rfl
    | set | keyed => cases hrows
  | set => exact absurd rfl hshape
  | keyed old =>
    cases new with
    | keyed new =>
      cases hrows
      obtain ⟨items, hitems, hleft⟩ := carryOut_diffKeyed_keys old new
      rw [hitems]
      cases slot with
      | key k => exact hleft k
      | unordered | index => rfl
    | sequence | set => cases hrows

theorem not_findsRows_diff (h : diff (some old) new collectOrphans = .ok c)
    (hshape : old.shape ≠ .set) : ¬c.FindsRows old.shape := by
  obtain ⟨rows, hrows, _, hdeletions, _, _⟩ := diff_cases h
  rintro (hset | ⟨hsequence, d, hd, hslot⟩)
  · exact hshape hset
  · rw [hdeletions] at hd
    cases old with
    | sequence old =>
      cases new with
      | sequence new =>
        cases hrows
        rw [diffSequence, List.mem_filterMap] at hd
        obtain ⟨pair, _, hpair⟩ := hd
        split at hpair
        next =>
          cases hpair
          exact hslot _ rfl
        next => cases hpair
      | set | keyed => cases hrows
    | set | keyed => cases hsequence

variable {o n : T.Element} {slot : Slot K.Carrier}

theorem exists_diff (ho : old.elementAt? slot = some o) (hn : new.elementAt? slot = some n)
    (collectOrphans : Bool) : ∃ c, diff (some old) new collectOrphans = .ok c := by
  rcases Aggregate.elementAt?_cases ho with ⟨old, i, rfl, rfl, _⟩ | ⟨old, k, rfl, rfl, _⟩
  · obtain ⟨new, i, rfl, _⟩ | ⟨new, k, rfl, hk, _⟩ := Aggregate.elementAt?_cases hn
    · exact ⟨_, rfl⟩
    · cases hk
  · obtain ⟨new, i, rfl, hi, _⟩ | ⟨new, k, rfl, _⟩ := Aggregate.elementAt?_cases hn
    · cases hi
    · exact ⟨_, rfl⟩

theorem isDirty_of_equalsSnapshot
    (ho : old.elementAt? slot = some o) (hn : new.elementAt? slot = some n)
    (h : equalsSnapshot old new = true) : T.isDirty n o = false := by
  rcases Aggregate.elementAt?_cases ho with ⟨old, i, rfl, rfl, hoi⟩ | ⟨old, k, rfl, rfl, hok⟩
  · obtain ⟨new, i, rfl, hi, hni⟩ | ⟨new, k, rfl, hk, hnk⟩ := Aggregate.elementAt?_cases hn
    · cases hi
      simp only [equalsSnapshot, Bool.and_eq_true, List.all_eq_true] at h
      have hmem : (some o, some n) ∈ old.zip new := by
        apply List.mem_of_getElem? (i := i)
        rw [List.getElem?_zip_eq_some]
        exact ⟨Option.join_eq_some_iff.mp hoi, Option.join_eq_some_iff.mp hni⟩
      simpa [slotUnchanged] using h.2 _ hmem
    · cases hk
  · obtain ⟨new, i, rfl, hi, hni⟩ | ⟨new, k, rfl, hk, hnk⟩ := Aggregate.elementAt?_cases hn
    · cases hi
    · cases hk
      obtain ⟨o', hget, hclean⟩ := (entriesUnchanged_iff.mp h).2 (k, n)
        (SortedMap.get?_eq_some_iff.mp hnk)
      rw [hok] at hget
      cases hget
      exact hclean

end Updates

end LazyCollections
