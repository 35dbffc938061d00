import LazyCollections.Proofs.Changes.DiffExact

/-!
# When there is no difference

A quick comparison of contents with a snapshot should tell whether there is work on rows. It does on
sets, on keyed collections and on sequences of one length, whatever the elements are. Sequences that
differ in null slots at the end alone are unequal, and yet there is no work.
-/

namespace LazyCollections

set_option autoImplicit false

variable {T : ElementType} {K : Scalar}

/-- The two differ in null slots at the end alone. -/
def Aggregate.OnlyPadded (old new : Aggregate T K) : Prop :=
  old.size ≠ new.size ∧ equalsSnapshot old.trimmed new.trimmed = true

section Sequences

theorem dropTrailingNulls_map {α β : Type} (f : α → β) (slots : List (Option α)) :
    Aggregate.dropTrailingNulls (slots.map (Option.map f)) =
      (Aggregate.dropTrailingNulls slots).map (Option.map f) := by
  induction slots with
  | nil => rfl
  | cons slot slots ih =>
    rw [List.map_cons, Aggregate.dropTrailingNulls, ih, Aggregate.dropTrailingNulls]
    cases Aggregate.dropTrailingNulls slots with
    | nil => cases slot <;> rfl
    | cons next rest => rfl

theorem length_dropTrailingNulls_congr {α : Type} {a b : List (Option α)}
    (h : ∀ i : Nat, a[i]?.join.isSome = b[i]?.join.isSome) :
    (Aggregate.dropTrailingNulls a).length = (Aggregate.dropTrailingNulls b).length := by
  have hmarked (slots : List (Option α)) (i : Nat) :
      (slots.map (Option.map fun _ => ()))[i]?.join = slots[i]?.join.map fun _ => () := by
    rw [List.getElem?_map]
    cases slots[i]? <;> rfl
  have hfilled : ∀ i : Nat, (a.map (Option.map fun _ => ()))[i]?.join =
      (b.map (Option.map fun _ => ()))[i]?.join := by
    intro i
    rw [hmarked, hmarked]
    have hi := h i
    cases hx : a[i]?.join <;> cases hy : b[i]?.join <;> simp [hx, hy] at hi ⊢
  have hsame := congrArg List.length (Aggregate.dropTrailingNulls_congr hfilled)
  rwa [dropTrailingNulls_map, dropTrailingNulls_map, List.length_map, List.length_map] at hsame

variable {old new : List (Option T.Element)}

/-- Every slot is unchanged, a missing one read as null. -/
def SlotsUnchanged (T : ElementType) (old new : List (Option T.Element)) : Prop :=
  ∀ i : Nat, slotUnchanged T old[i]?.join new[i]?.join = true

theorem isSome_eq_of_slotUnchanged {o n : Option T.Element} (h : slotUnchanged T o n = true) :
    o.isSome = n.isSome := by
  cases o <;> cases n <;> first | rfl | cases h

theorem equalsSnapshot_sequence_iff :
    equalsSnapshot (.sequence old : Aggregate T K) (.sequence new) = true ↔
      old.length = new.length ∧ SlotsUnchanged T old new := by
  rw [equalsSnapshot, Bool.and_eq_true, decide_eq_true_eq, List.all_eq_true]
  refine and_congr_right fun hlength => ⟨fun h i => ?_, fun h pair hpair => ?_⟩
  · by_cases hi : i < old.length
    · have hmem : (old[i], new[i]) ∈ old.zip new := by
        rw [← List.getElem_zip (h := by rw [List.length_zip]; omega)]
        exact List.getElem_mem _
      rw [List.getElem?_eq_getElem hi, List.getElem?_eq_getElem (hlength ▸ hi)]
      exact h _ hmem
    · rw [List.getElem?_eq_none (by omega), List.getElem?_eq_none (by omega)]
      rfl
  · obtain ⟨i, hi, rfl⟩ := List.getElem_of_mem hpair
    rw [List.length_zip] at hi
    have hslot := h i
    rw [List.getElem?_eq_getElem (by omega), List.getElem?_eq_getElem (by omega)] at hslot
    rwa [List.getElem_zip]

theorem isEmpty_diffSequence_iff :
    (diffSequence old new : ChangeSet T.Element K.Carrier).isEmpty = true ↔
      SlotsUnchanged T old new := by
  simp only [ChangeSet.isEmpty, diffSequence, slotPairs, Bool.not_false, Bool.true_and,
    Bool.and_eq_true, List.isEmpty_iff, List.filterMap_eq_nil_iff, List.forall_mem_map,
    List.mem_range, ← forall_and]
  refine forall_congr' fun i => ?_
  by_cases hi : i < max old.length new.length
  · rw [imp_iff_right hi]
    cases old[i]?.join <;> cases new[i]?.join <;> simp [slotUnchanged]
  · rw [List.getElem?_eq_none (by omega), List.getElem?_eq_none (by omega)]
    exact iff_of_true (fun h => absurd h hi) rfl

theorem equalsSnapshot_trimmed_sequence_iff :
    equalsSnapshot (Aggregate.sequence old : Aggregate T K).trimmed
        (Aggregate.sequence new : Aggregate T K).trimmed = true ↔ SlotsUnchanged T old new := by
  rw [Aggregate.trimmed, Aggregate.trimmed, equalsSnapshot_sequence_iff]
  have hslots : SlotsUnchanged T (Aggregate.dropTrailingNulls old)
      (Aggregate.dropTrailingNulls new) ↔ SlotsUnchanged T old new := by
    simp only [SlotsUnchanged, Aggregate.join_getElem?_dropTrailingNulls]
  rw [hslots]
  exact and_iff_right_of_imp fun h =>
    length_dropTrailingNulls_congr fun i => isSome_eq_of_slotUnchanged (h i)

end Sequences

theorem SortedMap.size_eq_iff {κ β γ : Type} [Ord κ] [Std.LawfulEqOrd κ] {m : SortedMap κ β}
    {n : SortedMap κ γ} (h : ∀ k ∈ n.keys, k ∈ m.keys) :
    m.size = n.size ↔ ∀ k ∈ m.keys, k ∈ n.keys := by
  have hsub := List.subperm_of_subset n.nodup_keys h
  rw [← m.length_keys, ← n.length_keys]
  constructor
  · exact fun hlength k hk => (hsub.perm_of_length_le (Nat.le_of_eq hlength)).mem_iff.mpr hk
  · exact fun hback =>
      ((List.perm_ext_iff_of_nodup m.nodup_keys n.nodup_keys).mpr fun k => ⟨hback k, h k⟩).length_eq

section Entries

variable {κ : Type} [Ord κ] {old new : SortedMap κ T.Element}

theorem removedEntries_eq_nil_iff [Std.LawfulEqOrd κ] :
    removedEntries old new = [] ↔ ∀ k ∈ old.keys, k ∈ new.keys := by
  simp only [removedEntries, List.filter_eq_nil_iff, Bool.not_eq_true', Bool.not_eq_false,
    ← SortedMap.mem_keys_iff]
  exact (List.forall_mem_map (f := Prod.fst)).symm

theorem changedEntries_addedEntries_eq_nil_iff :
    changedEntries old new = [] ∧ addedEntries old new = [] ↔
      ∀ e ∈ new.entries, ∃ o, old.get? e.1 = some o ∧ T.isDirty e.2 o = false := by
  simp only [changedEntries, addedEntries, List.filterMap_eq_nil_iff, List.filter_eq_nil_iff,
    SortedMap.contains, ← forall_and]
  refine forall_congr' fun e => ?_
  cases old.get? e.1 <;> simp

/-- Where each entry was there before, as many as before means that none is gone. -/
theorem entriesUnchanged_iff_eq_nil [Std.LawfulEqOrd κ] :
    entriesUnchanged T old new = true ↔
      removedEntries old new = [] ∧ changedEntries old new = [] ∧ addedEntries old new = [] := by
  rw [entriesUnchanged_iff, removedEntries_eq_nil_iff, changedEntries_addedEntries_eq_nil_iff]
  refine and_congr_left fun hkept => SortedMap.size_eq_iff ?_
  rw [SortedMap.keys, List.forall_mem_map]
  intro e he
  obtain ⟨o, ho, _⟩ := hkept e he
  exact SortedMap.mem_keys_iff.mpr (SortedMap.contains_iff.mpr ⟨o, ho⟩)

end Entries

theorem isEmpty_diffKeyed_iff {old new : SortedMap K.Carrier T.Element} :
    (diffKeyed old new : ChangeSet T.Element K.Carrier).isEmpty = true ↔
      entriesUnchanged T old new = true := by
  simp [entriesUnchanged_iff_eq_nil, ChangeSet.isEmpty, diffKeyed, and_assoc]

theorem insertions_diffSet_eq_nil_iff {old new : SortedMap T.Id T.Element} :
    (diffSet old new : ChangeSet T.Element K.Carrier).insertions = [] ↔
      changedEntries old new = [] ∧ addedEntries old new = [] := by
  simp only [diffSet, changedEntries, addedEntries, List.filterMap_eq_nil_iff,
    List.filter_eq_nil_iff, SortedMap.contains, ← forall_and]
  refine forall_congr' fun e => ?_
  cases old.get? e.1 <;> simp

theorem isEmpty_diffSet_iff {old new : SortedMap T.Id T.Element} :
    (diffSet old new : ChangeSet T.Element K.Carrier).isEmpty = true ↔
      entriesUnchanged T old new = true := by
  have hrows : (diffSet old new : ChangeSet T.Element K.Carrier).isEmpty = true ↔
      (removedEntries old new = [] ∧ changedEntries old new = []) ∧
        (diffSet old new : ChangeSet T.Element K.Carrier).insertions = [] := by
    simp [ChangeSet.isEmpty, diffSet]
  rw [hrows, insertions_diffSet_eq_nil_iff, entriesUnchanged_iff_eq_nil]
  tauto

section Shapes

variable {old new : Aggregate T K} {collectOrphans : Bool} {c : ChangeSet T.Element K.Carrier}

theorem isEmpty_diff_iff (h : diff (some old) new collectOrphans = .ok c) :
    (c.isEmpty = true ↔ equalsSnapshot old.trimmed new.trimmed = true) ∧
      (equalsSnapshot old new = true ↔ c.isEmpty = true ∧ old.size = new.size) := by
  obtain ⟨rows, hrows, htruncate, hdeletions, hupdates, hinsertions⟩ := diff_cases h
  have hc : c.isEmpty = rows.isEmpty := by
    rw [ChangeSet.isEmpty, htruncate, hdeletions, hupdates, hinsertions]
    rfl
  rw [hc]
  have hsize {κ : Type} [Ord κ] {a b : SortedMap κ T.Element}
      (hunchanged : entriesUnchanged T a b = true) : a.size = b.size :=
    (entriesUnchanged_iff.mp hunchanged).1
  cases old with
  | sequence old =>
    cases new with
    | sequence new =>
      cases hrows
      rw [isEmpty_diffSequence_iff, equalsSnapshot_trimmed_sequence_iff,
        equalsSnapshot_sequence_iff]
      exact ⟨Iff.rfl, and_comm⟩
    | set | keyed => cases hrows
  | set old =>
    cases new with
    | set new =>
      cases hrows
      rw [isEmpty_diffSet_iff]
      exact ⟨Iff.rfl, (and_iff_left_of_imp hsize).symm⟩
    | sequence | keyed => cases hrows
  | keyed old =>
    cases new with
    | keyed new =>
      cases hrows
      rw [isEmpty_diffKeyed_iff]
      exact ⟨Iff.rfl, (and_iff_left_of_imp hsize).symm⟩
    | sequence | set => cases hrows

/-- Contents that are unequal to the snapshot have no difference from it exactly if they differ in
padding alone. -/
theorem equalsSnapshot_iff_isEmpty (h : diff (some old) new collectOrphans = .ok c) :
    equalsSnapshot old new = true ↔ c.isEmpty = true ∧ ¬old.OnlyPadded new := by
  obtain ⟨hempty, hequal⟩ := isEmpty_diff_iff h
  rw [hequal, Aggregate.OnlyPadded, ← hempty]
  tauto

end Shapes

end LazyCollections
