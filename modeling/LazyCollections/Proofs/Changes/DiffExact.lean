import LazyCollections.Proofs.Changes.DiffSlots
import LazyCollections.Proofs.Element.Laws
import Mathlib.Data.List.Perm.Subperm

/-!
# Differences bring the snapshot to the contents

Where elements of unchanged state are the same, contents that equal the snapshot in the quick
comparison are the snapshot, and carrying out the difference on the snapshot leaves the contents.
Writing everything anew leaves the contents as well, whatever was there.
-/

namespace LazyCollections

set_option autoImplicit false

variable {T : ElementType} {K : Scalar}

namespace SortedMap

variable {κ β : Type} [Ord κ] [Std.TransOrd κ] [Std.LawfulEqOrd κ]

theorem eq_of_entries_subset {old new : SortedMap κ β} (hsize : old.size = new.size)
    (h : ∀ e ∈ new.entries, e ∈ old.entries) : new = old := by
  have hperm : new.entries.Perm old.entries :=
    (List.subperm_of_subset new.nodup_entries h).perm_of_length_le (Nat.le_of_eq hsize)
  apply ext_get?
  intro k
  cases hk : old.get? k with
  | none =>
    rw [get?_eq_none_iff] at hk ⊢
    exact fun e he => hk e (h e he)
  | some v =>
    rw [get?_eq_some_iff] at hk ⊢
    exact hperm.mem_iff.mpr hk

variable {old new : SortedMap κ β} {gone : List κ} {written : List (κ × β)}

/-- Erasing and inserting makes one map of another if every key that is lost is erased, only
entries of the new map are inserted, each erased before or new, and all those are that are not
kept. -/
theorem foldl_insertIfNew_foldl_erase_eq
    (hgone : ∀ k, new.get? k = none → old.get? k = none ∨ k ∈ gone)
    (hwritten : ∀ e ∈ written, e ∈ new.entries ∧ (old.get? e.1 = none ∨ e.1 ∈ gone))
    (hkept : ∀ e ∈ new.entries, e ∈ written ∨ old.get? e.1 = some e.2 ∧ e.1 ∉ gone) :
    written.foldl (fun m e => m.insertIfNew e.1 e.2) (gone.foldl erase old) = new := by
  apply ext_get?
  intro k
  cases hk : new.get? k with
  | none =>
    have hnot : ∀ e ∈ written, e.1 ≠ k := fun e he =>
      get?_eq_none_iff.mp hk e (hwritten e he).1
    rw [get?_foldl_insertIfNew_of_notMem hnot]
    rcases hgone k hk with hold | hmem
    · exact get?_foldl_erase_of_none hold gone
    · exact get?_foldl_erase_of_mem hmem old
  | some v =>
    rcases hkept (k, v) (get?_eq_some_iff.mp hk) with hmem | ⟨hold, hnot⟩
    · have hfun : ∀ e ∈ written, e.1 = k → e.2 = v := by
        rintro e he rfl
        rw [get?_eq_some_iff.mpr (hwritten e he).1] at hk
        exact Option.some.inj hk
      apply get?_foldl_insertIfNew_of_mem hfun hmem
      rcases (hwritten (k, v) hmem).2 with hold | hgone
      · exact get?_foldl_erase_of_none hold gone
      · exact get?_foldl_erase_of_mem hgone old
    · apply get?_foldl_insertIfNew_of_some
      rw [get?_foldl_erase_of_notMem hnot]
      exact hold

end SortedMap

section Sets

variable {old new : SortedMap T.Id T.Element}
variable (hold : ∀ e ∈ old.entries, e.1 = T.idOf e.2)

include hold in
theorem mem_diffSet_deletions {k : T.Id} :
    k ∈ (diffSet old new : ChangeSet T.Element K.Carrier).deletions.map
        (fun d => T.idOf d.element) ↔
      ∃ o, old.get? k = some o ∧ ∀ n, new.get? k = some n → T.isDirty n o = true := by
  have hid : ∀ {j o}, old.get? j = some o → T.idOf o = j := fun h =>
    (hold _ (SortedMap.get?_eq_some_iff.mp h)).symm
  simp only [diffSet, List.map_append, List.map_map, List.mem_append, List.mem_map]
  constructor
  · rintro (⟨e, he, rfl⟩ | ⟨c, hc, rfl⟩)
    · obtain ⟨hget, hnone⟩ := mem_removedEntries.mp he
      simp only [Function.comp_apply, hid hget]
      refine ⟨e.2, hget, ?_⟩
      intro n hn
      rw [hnone] at hn
      cases hn
    · obtain ⟨hget, hsome, hdirty⟩ := mem_changedEntries.mp hc
      simp only [Function.comp_apply, hid hget]
      refine ⟨c.2.1, hget, ?_⟩
      intro n hn
      rw [hsome] at hn
      cases hn
      exact hdirty
  · rintro ⟨o, hget, hdirty⟩
    cases hn : new.get? k with
    | none => exact Or.inl ⟨(k, o), mem_removedEntries.mpr ⟨hget, hn⟩, hid hget⟩
    | some n => exact Or.inr ⟨(k, o, n), mem_changedEntries.mpr ⟨hget, hn, hdirty n hn⟩, hid hget⟩

theorem mem_diffSet_insertions (hnew : ∀ e ∈ new.entries, e.1 = T.idOf e.2)
    {e : T.Id × T.Element} :
    e ∈ (diffSet old new : ChangeSet T.Element K.Carrier).insertions.map
        (fun d => (T.idOf d.element, d.element)) ↔
      e ∈ new.entries ∧ ∀ o, old.get? e.1 = some o → T.isDirty e.2 o = true := by
  simp only [diffSet, List.map_filterMap, List.mem_filterMap]
  constructor
  · rintro ⟨d, hd, hsome⟩
    cases hget : old.get? d.1 with
    | none =>
      simp only [hget, Option.map_some, ← hnew d hd] at hsome
      cases hsome
      exact ⟨hd, fun o ho => by rw [hget] at ho; cases ho⟩
    | some o =>
      simp only [hget] at hsome
      split at hsome
      next hdirty =>
        simp only [Option.map_some, ← hnew d hd] at hsome
        cases hsome
        refine ⟨hd, ?_⟩
        intro o' ho'
        rw [hget] at ho'
        cases ho'
        exact hdirty
      next => cases hsome
  · rintro ⟨he, hdirty⟩
    refine ⟨e, he, ?_⟩
    cases hget : old.get? e.1 with
    | none => simp only [Option.map_some, ← hnew e he]
    | some o => simp only [hdirty o hget, if_true, Option.map_some, ← hnew e he]

include hold in
theorem get?_eq_none_or_mem_diffSet_deletions {k : T.Id}
    (hdirty : ∀ o n, old.get? k = some o → new.get? k = some n → T.isDirty n o = true) :
    old.get? k = none ∨ k ∈ (diffSet old new : ChangeSet T.Element K.Carrier).deletions.map
      (fun d => T.idOf d.element) := by
  cases hget : old.get? k with
  | none => exact .inl rfl
  | some o => exact .inr ((mem_diffSet_deletions hold).mpr ⟨o, hget, fun n hn => hdirty o n hget hn⟩)

include hold in
/-- An element that is not inserted is unchanged, so it is the very element that was there. -/
theorem mem_diffSet_insertions_or_kept (hT : T.TellsApart .set)
    (hnew : ∀ e ∈ new.entries, e.1 = T.idOf e.2) {e : T.Id × T.Element} (he : e ∈ new.entries) :
    e ∈ (diffSet old new : ChangeSet T.Element K.Carrier).insertions.map
        (fun d => (T.idOf d.element, d.element)) ∨
      old.get? e.1 = some e.2 ∧
        e.1 ∉ (diffSet old new : ChangeSet T.Element K.Carrier).deletions.map
          (fun d => T.idOf d.element) := by
  by_cases hall : ∀ o, old.get? e.1 = some o → T.isDirty e.2 o = true
  · exact .inl ((mem_diffSet_insertions hnew).mpr ⟨he, hall⟩)
  · simp only [not_forall, Bool.not_eq_true] at hall
    obtain ⟨o, hget, hclean⟩ := hall
    have hid : T.idOf e.2 = T.idOf o := by
      rw [← hnew e he, ← hold _ (SortedMap.get?_eq_some_iff.mp hget)]
    have heq : e.2 = o := hT e.2 o (fun _ => hid) hclean
    refine .inr ⟨hget.trans (congrArg some heq.symm), fun hmem => ?_⟩
    obtain ⟨o', hget', hdirty⟩ := (mem_diffSet_deletions hold).mp hmem
    rw [hget] at hget'
    cases hget'
    rw [hdirty e.2 (SortedMap.get?_eq_some_iff.mpr he)] at hclean
    cases hclean

theorem carryOut_diffSet (hT : T.TellsApart .set) (hold : ∀ e ∈ old.entries, e.1 = T.idOf e.2)
    (hnew : ∀ e ∈ new.entries, e.1 = T.idOf e.2) :
    (diffSet old new : ChangeSet T.Element K.Carrier).carryOut (.set old) = .set new := by
  rw [ChangeSet.carryOut_set _ rfl]
  congr 1
  apply SortedMap.foldl_insertIfNew_foldl_erase_eq
  · intro k hk
    refine get?_eq_none_or_mem_diffSet_deletions hold fun o n _ hn => ?_
    rw [hk] at hn
    cases hn
  · intro e he
    obtain ⟨hmem, hdirty⟩ := (mem_diffSet_insertions hnew).mp he
    refine ⟨hmem, get?_eq_none_or_mem_diffSet_deletions hold fun o n ho hn => ?_⟩
    rw [SortedMap.get?_eq_some_iff.mpr hmem] at hn
    cases hn
    exact hdirty o ho
  · exact fun e he => mem_diffSet_insertions_or_kept hold hT hnew he

end Sets

theorem settled_eq {shape : Shape} (hT : T.TellsApart shape) (hshape : shape ≠ .set)
    (old new : Option T.Element) : settled T old new = new := by
  cases old with
  | none => rfl
  | some o =>
    cases new with
    | none => rfl
    | some n =>
      cases hdirty : T.isDirty n o with
      | true => rw [settled, if_pos hdirty]
      | false =>
        have heq : n = o := hT n o (fun hset => absurd hset hshape) hdirty
        rw [settled, hdirty, heq]
        rfl

theorem carryOut_diffKeyed (hT : T.TellsApart .keyed) (old new : SortedMap K.Carrier T.Element) :
    (diffKeyed old new : ChangeSet T.Element K.Carrier).carryOut (.keyed old) = .keyed new := by
  obtain ⟨items, hcarry, hkeys⟩ := carryOut_diffKeyed_keys old new
  rw [hcarry]
  refine congrArg Aggregate.keyed (SortedMap.ext_get? fun k => ?_)
  rw [hkeys, settled_eq hT nofun]

theorem carryOut_diffSequence (hT : T.TellsApart .sequence) (old new : List (Option T.Element))
    {base : List (Option T.Element)} (hbase : ∀ j : Nat, base[j]?.join = old[j]?.join) :
    (diffSequence old new : ChangeSet T.Element K.Carrier).carryOut (.sequence base) =
      .sequence (Aggregate.dropTrailingNulls new) := by
  obtain ⟨slots, hcarry, hslots⟩ :=
    carryOut_diffSequence_slots_of_join_eq (K := K) old new hbase
  rw [hcarry]
  refine congrArg Aggregate.sequence (Aggregate.dropTrailingNulls_congr fun j => ?_)
  rw [hslots, settled_eq hT nofun]

theorem slotUnchanged_eq (hT : T.TellsApart .sequence) {old new : Option T.Element}
    (h : slotUnchanged T old new = true) : new = old := by
  cases old with
  | none =>
    cases new with
    | none => rfl
    | some n => cases h
  | some o =>
    cases new with
    | none => cases h
    | some n =>
      rw [slotUnchanged, Bool.not_eq_true'] at h
      rw [hT n o Shape.noConfusion h]

theorem entriesUnchanged_eq {κ : Type} [Ord κ] [Std.TransOrd κ] [Std.LawfulEqOrd κ]
    {old new : SortedMap κ T.Element}
    (heq : ∀ e ∈ new.entries, ∀ o, old.get? e.1 = some o → T.isDirty e.2 o = false → e.2 = o)
    (h : entriesUnchanged T old new = true) : new = old := by
  obtain ⟨hsize, hall⟩ := entriesUnchanged_iff.mp h
  apply SortedMap.eq_of_entries_subset hsize
  intro e he
  obtain ⟨o, hget, hclean⟩ := hall e he
  rw [← SortedMap.get?_eq_some_iff, hget, heq e he o hget hclean]

theorem eq_of_slotsUnchanged (hT : T.TellsApart .sequence) {old new : List (Option T.Element)}
    (hlength : old.length = new.length)
    (hall : ∀ pair ∈ old.zip new, slotUnchanged T pair.1 pair.2 = true) : new = old := by
  apply List.ext_getElem hlength.symm
  intro i hi hi'
  have hmem : (old[i], new[i]) ∈ old.zip new := by
    have hzip : i < (old.zip new).length := by
      rw [List.length_zip]
      omega
    rw [← List.getElem_zip (h := hzip)]
    exact List.getElem_mem hzip
  exact slotUnchanged_eq hT (hall _ hmem)

theorem eq_of_equalsSnapshot {old new : Aggregate T K} (hT : T.TellsApart old.shape)
    (hold : old.KeyedById) (hnew : new.KeyedById) (h : equalsSnapshot old new = true) :
    new = old := by
  cases old with
  | sequence old =>
    cases new with
    | sequence new =>
      simp only [equalsSnapshot, Bool.and_eq_true, decide_eq_true_eq, List.all_eq_true] at h
      exact congrArg Aggregate.sequence (eq_of_slotsUnchanged hT h.1 h.2)
    | set items => cases h
    | keyed items => cases h
  | set old =>
    cases new with
    | set new =>
      refine congrArg Aggregate.set (entriesUnchanged_eq ?_ h)
      intro e he o hget hclean
      refine hT e.2 o (fun _ => ?_) hclean
      rw [← hnew e he, ← hold _ (SortedMap.get?_eq_some_iff.mp hget)]
    | sequence slots => cases h
    | keyed items => cases h
  | keyed old =>
    cases new with
    | keyed new =>
      refine congrArg Aggregate.keyed (entriesUnchanged_eq ?_ h)
      intro e _ o _ hclean
      exact hT e.2 o Shape.noConfusion hclean
    | sequence slots => cases h
    | set items => cases h

theorem carryOut_writeAnew_eq (base new : Aggregate T K) :
    (writeAnew new).carryOut base =
      Aggregate.trimmed ((writeAnew new).insertions.foldl
        (fun a d => a.writeRow d.slot d.element) (Aggregate.empty base.shape)) := rfl

theorem carryOut_writeAnew_sequence (slots : List (Option T.Element)) (base : Aggregate T K)
    (hshape : base.shape = .sequence) :
    (writeAnew (.sequence slots : Aggregate T K)).carryOut base =
      .sequence (Aggregate.dropTrailingNulls slots) := by
  have hindexed : slots.zipIdx = (List.range slots.length).map fun i => (slots[i]?.join, i) := by
    apply List.ext_getElem
    · simp
    · intro i hi hi'
      rw [List.length_zipIdx] at hi
      simp [List.getElem?_eq_getElem hi]
  have hwritten : (writeAnew (.sequence slots : Aggregate T K)).insertions.foldl
      (fun a d => a.writeRow d.slot d.element) (.sequence []) =
        (.sequence ((List.range slots.length).foldl (insertSlot [] slots) []) : Aggregate T K) := by
    rw [writeAnew, hindexed, List.foldl_filterMap, List.foldl_map]
    refine List.foldl_hom (Aggregate.sequence (T := T) (K := K)) fun written i => ?_
    cases hslot : slots[i]?.join <;> simp [insertSlot, hslot, Aggregate.writeRow]
  have hview : ∀ written i j, (insertSlot [] slots written i)[j]?.join =
      if i = j then (slots[i]?.join).or written[j]?.join else written[j]?.join := by
    intro written i j
    rw [join_getElem?_insertSlot]
    cases slots[i]?.join <;> simp
  have hslots :
      Aggregate.dropTrailingNulls ((List.range slots.length).foldl (insertSlot [] slots) []) =
        Aggregate.dropTrailingNulls slots := by
    apply Aggregate.dropTrailingNulls_congr
    intro j
    rw [join_getElem?_foldl_range hview]
    split
    next => simp
    next hj => rw [List.getElem?_eq_none (Nat.le_of_not_lt hj), List.getElem?_nil]
  rw [carryOut_writeAnew_eq, hshape, ← hslots]
  exact congrArg Aggregate.trimmed hwritten

theorem carryOut_writeAnew {base new : Aggregate T K} (hshape : base.shape = new.shape)
    (hnew : new.KeyedById) : (writeAnew new).carryOut base = new.trimmed := by
  cases new with
  | sequence slots => exact carryOut_writeAnew_sequence slots base hshape
  | set items =>
    have hentries : ((writeAnew (.set items : Aggregate T K)).insertions.map
        fun d => (T.idOf d.element, d.element)) = items.entries := by
      simp only [writeAnew, SortedMap.values, List.map_map]
      refine (List.map_congr_left fun e he => ?_).trans (List.map_id _)
      exact Prod.ext (hnew e he).symm rfl
    cases base with
    | set base =>
      rw [ChangeSet.carryOut_set _ rfl, hentries]
      refine congrArg Aggregate.set ?_
      apply SortedMap.foldl_insertIfNew_foldl_erase_eq
      · exact fun k _ => Or.inl rfl
      · exact fun e he => ⟨he, Or.inl rfl⟩
      · exact fun e he => Or.inl he
    | sequence slots => cases hshape
    | keyed items => cases hshape
  | keyed items =>
    rw [carryOut_writeAnew_eq, hshape, writeAnew, List.foldl_map]
    refine congrArg Aggregate.trimmed ((Aggregate.foldl_writeRow_keyed items.entries ∅).trans ?_)
    exact congrArg Aggregate.keyed (SortedMap.ofList_eq fun _ => Iff.rfl)

/-- Carried out on contents that differ from the snapshot in null slots at the end at most, a
difference leaves the new contents without such slots. -/
theorem carryOut_diff_of_trimmed_eq {base old new : Aggregate T K} (hT : T.TellsApart old.shape)
    (hbase : base.trimmed = old.trimmed) (hshape : old.shape = new.shape) (hold : old.KeyedById)
    (hnew : new.KeyedById) (collectOrphans : Bool) :
    ∃ c, diff (some old) new collectOrphans = .ok c ∧ c.carryOut base = new.trimmed ∧
      c.orphans = if collectOrphans then orphans old new else [] := by
  have hrows : ∃ c, diffRows old new = .ok c ∧ c.carryOut base = new.trimmed ∧ c.orphans = [] := by
    cases old with
    | sequence old =>
      cases new with
      | sequence new =>
        obtain ⟨slots, rfl, hslots⟩ := Aggregate.eq_sequence_of_trimmed_eq hbase
        refine ⟨_, rfl, carryOut_diffSequence hT old new fun j => ?_, rfl⟩
        rw [← Aggregate.join_getElem?_dropTrailingNulls, hslots,
          Aggregate.join_getElem?_dropTrailingNulls]
      | set items => cases hshape
      | keyed items => cases hshape
    | set old =>
      obtain rfl : base = .set old := Aggregate.eq_of_trimmed_eq hbase nofun
      cases new with
      | set new => exact ⟨_, rfl, carryOut_diffSet hT hold hnew, rfl⟩
      | sequence slots => cases hshape
      | keyed items => cases hshape
    | keyed old =>
      obtain rfl : base = .keyed old := Aggregate.eq_of_trimmed_eq hbase nofun
      cases new with
      | keyed new => exact ⟨_, rfl, carryOut_diffKeyed hT old new, rfl⟩
      | sequence slots => cases hshape
      | set items => cases hshape
  obtain ⟨c, hc, hcarry, horphans⟩ := hrows
  cases collectOrphans with
  | false => exact ⟨c, by rw [diff, hc]; rfl, hcarry, horphans⟩
  | true => exact ⟨{ c with orphans := orphans old new }, by rw [diff, hc]; rfl, hcarry, rfl⟩

theorem carryOut_diff {old new : Aggregate T K} (hT : T.TellsApart old.shape)
    (hshape : old.shape = new.shape) (hold : old.KeyedById) (hnew : new.KeyedById)
    (collectOrphans : Bool) :
    ∃ c, diff (some old) new collectOrphans = .ok c ∧ c.carryOut old = new.trimmed := by
  obtain ⟨c, hc, hcarry, _⟩ := carryOut_diff_of_trimmed_eq hT rfl hshape hold hnew collectOrphans
  exact ⟨c, hc, hcarry⟩

end LazyCollections
