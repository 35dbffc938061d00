import LazyCollections.Proofs.Aggregate.Identities
import LazyCollections.Proofs.Changes.DiffSlots
import LazyCollections.Proofs.Queue.Exact

/-!
# What a queue displaces

A queue that is written without loading displaces stored elements: rows are deleted, updated, or
removed with all others. Some stored rows are left in place. Which identities are stored afterwards
is known from the rows in place and from what the work writes, and as long as the queue clears
nothing, every row that is not in place is one of an element that the work has displaced.
-/

namespace LazyCollections

set_option autoImplicit false

variable {T : ElementType} {K : Scalar}

/-- The row that an update overwrites. -/
def ElementUpdate.row {ε κ : Type} (u : ElementUpdate ε κ) : ElementChange ε κ :=
  ⟨u.slot, u.previous⟩

/-- The stored rows that the change set deletes or overwrites one by one. -/
def ChangeSet.touched (c : ChangeSet T.Element K.Carrier) :
    List (ElementChange T.Element K.Carrier) :=
  c.deletions ++ c.updates.map ElementUpdate.row

/-- The contents without the rows that the change set removes or overwrites. -/
def ChangeSet.inPlace (c : ChangeSet T.Element K.Carrier) (a : Aggregate T K) : Aggregate T K :=
  c.touched.foldl (fun a d => a.deleteRow d.slot d.element) (if c.truncate then a.cleared else a)

theorem ChangeSet.keyedById_inPlace (c : ChangeSet T.Element K.Carrier) {a : Aggregate T K}
    (ha : a.KeyedById) : (c.inPlace a).KeyedById := by
  rw [inPlace]
  refine List.foldlRecOn c.touched _ ?_ fun b hb d _ => hb.deleteRow d.slot d.element
  split
  next => exact Aggregate.keyedById_empty a.shape
  next => exact ha

theorem ChangeSet.ids_inPlace_subset (c : ChangeSet T.Element K.Carrier) (a : Aggregate T K) :
    (c.inPlace a).ids ⊆ (if c.truncate then a.cleared else a).ids := by
  rw [inPlace]
  refine List.foldlRecOn
    (motive := fun b : Aggregate T K => b.ids ⊆ (if c.truncate then a.cleared else a).ids)
    c.touched _ (List.Subset.refl _) fun b hb d _ => ?_
  exact List.Subset.trans (b.ids_deleteRow_subset d.slot d.element) hb

theorem ChangeSet.not_mem_inPlace_of_truncate {c : ChangeSet T.Element K.Carrier}
    (h : c.truncate = true) (a : Aggregate T K) (i : T.Id) : i ∉ (c.inPlace a).ids := by
  intro hi
  have hcleared := c.ids_inPlace_subset a hi
  rw [if_pos h, Aggregate.ids_cleared] at hcleared
  cases hcleared

namespace QueueWork

open Aggregate

variable {w : QueueWork T.Element K.Carrier} {i : T.Id}

section Sequences

variable {queue : List (QueuedOp T.Element K.Carrier)} {base slots : List (Option T.Element)}
variable {gone added : List T.Element}

theorem OnSequence.inPlace_eq (h : w.OnSequence queue base slots gone added) :
    w.changes.inPlace (.sequence base) =
      .sequence (gone.foldl (fun s e => QueuedOp.removeFirst e s)
        (if w.changes.truncate then [] else base)) := by
  have hkept : (if w.changes.truncate then (Aggregate.sequence base : Aggregate T K).cleared
      else .sequence base) = .sequence (if w.changes.truncate then [] else base) := by
    split <;> rfl
  rw [ChangeSet.inPlace, hkept, ChangeSet.touched, h.deletions, h.updates, List.map_nil,
    List.append_nil, List.foldl_map]
  exact List.foldl_hom (Aggregate.sequence (T := T) (K := K)) fun _ _ => rfl

theorem OnSequence.ids_eq (h : w.OnSequence queue base slots gone added) :
    (sequence slots : Aggregate T K).ids =
      (w.changes.inPlace (.sequence base)).ids ++ w.written := by
  rw [h.inPlace_eq, h.slots_eq, ids_append_some, written, h.insertions, h.updates, List.map_map,
    List.map_nil, List.append_nil]
  rfl

theorem OnSequence.ids_inPlace (h : w.OnSequence queue base slots gone added)
    (hkept : w.changes.truncate = false) :
    (w.changes.inPlace (.sequence base)).ids =
      (sequence base : Aggregate T K).ids.diff (gone.map T.idOf) := by
  rw [h.inPlace_eq, hkept, ids_foldl_removeFirst]
  rfl

theorem OnSequence.touched_eq (h : w.OnSequence queue base slots gone added) :
    w.changes.touched = gone.map fun e => ⟨.unordered, e⟩ := by
  rw [ChangeSet.touched, h.deletions, h.updates, List.map_nil, List.append_nil]

theorem OnSequence.mem_inPlace_or_touched (h : w.OnSequence queue base slots gone added)
    (hkept : w.changes.truncate = false) (hi : i ∈ (sequence base : Aggregate T K).ids) :
    i ∈ (w.changes.inPlace (.sequence base)).ids ∨
      ∃ c ∈ w.changes.touched, T.idOf c.element = i := by
  rw [h.ids_inPlace hkept, h.touched_eq]
  by_cases hgone : i ∈ gone.map T.idOf
  · obtain ⟨e, he, rfl⟩ := List.mem_map.mp hgone
    exact .inr ⟨_, List.mem_map_of_mem he, rfl⟩
  · exact .inl (List.mem_diff_of_mem hi hgone)

theorem OnSequence.not_mem_inPlace (h : w.OnSequence queue base slots gone added)
    (hkept : w.changes.truncate = false) (hnodup : (sequence base : Aggregate T K).ids.Nodup)
    {c : ElementChange T.Element K.Carrier} (hc : c ∈ w.changes.touched) :
    T.idOf c.element ∉ (w.changes.inPlace (.sequence base)).ids := by
  rw [h.touched_eq] at hc
  obtain ⟨e, he, rfl⟩ := List.mem_map.mp hc
  rw [h.ids_inPlace hkept, hnodup.mem_sdiff_iff]
  exact fun hmem => hmem.2 (List.mem_map_of_mem he)

end Sequences

section Sets

variable {base items : SortedMap T.Id T.Element} {gone added : List T.Element}

theorem OnSet.inPlace_eq (h : w.OnSet base items gone added) :
    w.changes.inPlace (.set base) =
      (set (kept w.changes.truncate base (gone.map T.idOf)) : Aggregate T K) := by
  have hkept : (if w.changes.truncate then (set base : Aggregate T K).cleared else set base) =
      set (if w.changes.truncate then ∅ else base) := by
    split <;> rfl
  rw [ChangeSet.inPlace, hkept, ChangeSet.touched, h.updates, List.map_nil, List.append_nil,
    foldl_deleteRow_set, h.deletions, List.map_map]
  rfl

theorem OnSet.get?_ne_none_iff (h : w.OnSet base items gone added) :
    items.get? i ≠ none ↔
      (kept w.changes.truncate base (gone.map T.idOf)).get? i ≠ none ∨ i ∈ w.written := by
  have hwritten : i ∈ w.written ↔ ∃ e ∈ added, T.idOf e = i := by
    rw [written, h.insertions, h.updates, List.map_map, List.map_nil, List.append_nil]
    exact List.mem_map
  rw [h.items_eq, Ne, SortedMap.get?_foldl_insertIfNew_eq_none_iff, hwritten, not_and_or]
  simp

theorem OnSet.touched_eq (h : w.OnSet base items gone added) :
    w.changes.touched = gone.map fun e => ⟨.unordered, e⟩ := by
  rw [ChangeSet.touched, h.deletions, h.updates, List.map_nil, List.append_nil]

theorem OnSet.mem_inPlace_iff (h : w.OnSet base items gone added)
    (hkeyed : (set base : Aggregate T K).KeyedById) :
    i ∈ (w.changes.inPlace (.set base)).ids ↔
      (kept w.changes.truncate base (gone.map T.idOf)).get? i ≠ none := by
  have hinPlace := w.changes.keyedById_inPlace hkeyed
  rw [h.inPlace_eq] at hinPlace ⊢
  exact mem_ids_set hinPlace

theorem OnSet.mem_ids_iff (h : w.OnSet base items gone added)
    (hkeyed : (set base : Aggregate T K).KeyedById)
    (hnow : (set items : Aggregate T K).KeyedById) :
    i ∈ (set items : Aggregate T K).ids ↔
      i ∈ (w.changes.inPlace (.set base)).ids ∨ i ∈ w.written := by
  rw [mem_ids_set hnow, h.get?_ne_none_iff, h.mem_inPlace_iff hkeyed]

theorem OnSet.mem_inPlace_or_touched (h : w.OnSet base items gone added)
    (hkeyed : (set base : Aggregate T K).KeyedById) (hkept : w.changes.truncate = false)
    (hi : i ∈ (set base : Aggregate T K).ids) :
    i ∈ (w.changes.inPlace (.set base)).ids ∨ ∃ c ∈ w.changes.touched, T.idOf c.element = i := by
  rw [h.mem_inPlace_iff hkeyed, h.touched_eq, kept, hkept]
  by_cases hgone : i ∈ gone.map T.idOf
  · obtain ⟨e, he, rfl⟩ := List.mem_map.mp hgone
    exact .inr ⟨_, List.mem_map_of_mem he, rfl⟩
  · rw [SortedMap.get?_foldl_erase_of_notMem hgone]
    exact .inl ((mem_ids_set hkeyed).mp hi)

theorem OnSet.not_mem_inPlace (h : w.OnSet base items gone added)
    (hkeyed : (set base : Aggregate T K).KeyedById) {c : ElementChange T.Element K.Carrier}
    (hc : c ∈ w.changes.touched) :
    T.idOf c.element ∉ (w.changes.inPlace (.set base)).ids := by
  rw [h.touched_eq] at hc
  obtain ⟨e, he, rfl⟩ := List.mem_map.mp hc
  rw [h.mem_inPlace_iff hkeyed, not_not]
  exact SortedMap.get?_foldl_erase_of_mem (List.mem_map_of_mem he) _

end Sets

section Keyed

variable {base items : SortedMap K.Carrier T.Element} {gone added : List (K.Carrier × T.Element)}
variable {changed : List (K.Carrier × T.Element × T.Element)}

theorem OnKeyed.touched_eq (h : w.OnKeyed base items gone changed added) :
    w.changes.touched = (gone ++ changed.map fun u => (u.1, u.2.1)).map entryChange := by
  rw [ChangeSet.touched, h.deletions, h.updates, List.map_append, List.map_map, List.map_map]
  rfl

theorem OnKeyed.inPlace_eq (h : w.OnKeyed base items gone changed added) :
    w.changes.inPlace (.keyed base) =
      (keyed (kept w.changes.truncate base (gone.map Prod.fst ++ changed.map Prod.fst)) :
        Aggregate T K) := by
  have hkept : (if w.changes.truncate then (keyed base : Aggregate T K).cleared else keyed base) =
      keyed (if w.changes.truncate then ∅ else base) := by
    split <;> rfl
  rw [ChangeSet.inPlace, hkept, h.touched_eq, List.foldl_map]
  simp only [entryChange]
  rw [foldl_deleteRow_keyed, List.map_append, List.map_map]
  rfl

theorem OnKeyed.get?_eq_some_iff (h : w.OnKeyed base items gone changed added) {k : K.Carrier}
    {e : T.Element} :
    items.get? k = some e ↔
      (k, e) ∈ added ∨ (∃ u ∈ changed, u.1 = k ∧ u.2.2 = e) ∨
        (kept w.changes.truncate base (gone.map Prod.fst ++ changed.map Prod.fst)).get? k =
          some e := by
  have hadded : (∃ d ∈ added, d.1 = k ∧ d.2 = e) ↔ (k, e) ∈ added := by
    constructor
    · rintro ⟨d, hd, rfl, rfl⟩
      exact hd
    · intro hd
      exact ⟨_, hd, rfl, rfl⟩
  have hleft : (kept w.changes.truncate base (gone.map Prod.fst ++ changed.map Prod.fst)).get? k =
        some e ↔ (∀ u ∈ changed, u.1 ≠ k) ∧
          (kept w.changes.truncate base (gone.map Prod.fst)).get? k = some e := by
    rw [kept, List.foldl_append, SortedMap.get?_foldl_erase_eq_some_iff, kept]
    simp only [List.mem_map, not_exists, not_and, ne_eq]
  rw [h.items_eq, SortedMap.get?_foldl_insert_eq_some_iff h.distinct_added,
    SortedMap.get?_foldl_insert_eq_some_iff h.distinct_changed, hadded, hleft]
  constructor
  · rintro (hd | ⟨_, hu | hk⟩)
    · exact .inl hd
    · exact .inr (.inl hu)
    · exact .inr (.inr hk)
  · rintro (hd | ⟨u, hu, rfl, rfl⟩ | ⟨hu, hk⟩)
    · exact .inl hd
    · exact .inr ⟨fun d hd => ((h.fresh d hd).2 u hu).symm, .inl ⟨u, hu, rfl, rfl⟩⟩
    · refine .inr ⟨fun d hd heq => ?_, .inr ⟨hu, hk⟩⟩
      have hnone := (h.fresh d hd).1
      rw [heq, hk] at hnone
      cases hnone

theorem OnKeyed.mem_written_iff (h : w.OnKeyed base items gone changed added) :
    i ∈ w.written ↔
      (∃ d ∈ added, T.idOf d.2 = i) ∨ ∃ u ∈ changed, T.idOf u.2.2 = i := by
  rw [written, h.insertions, h.updates, List.map_map, List.map_map, List.mem_append,
    List.mem_map, List.mem_map]
  rfl

theorem OnKeyed.mem_ids_iff (h : w.OnKeyed base items gone changed added) :
    i ∈ (keyed items : Aggregate T K).ids ↔
      i ∈ (w.changes.inPlace (.keyed base)).ids ∨ i ∈ w.written := by
  rw [h.inPlace_eq, mem_ids_keyed, mem_ids_keyed, h.mem_written_iff]
  simp only [h.get?_eq_some_iff]
  constructor
  · rintro ⟨k, e, hd | ⟨u, hu, rfl, rfl⟩ | hkept, rfl⟩
    · exact .inr (.inl ⟨_, hd, rfl⟩)
    · exact .inr (.inr ⟨u, hu, rfl⟩)
    · exact .inl ⟨k, e, hkept, rfl⟩
  · rintro (⟨k, e, hkept, rfl⟩ | ⟨d, hd, rfl⟩ | ⟨u, hu, rfl⟩)
    · exact ⟨k, e, .inr (.inr hkept), rfl⟩
    · exact ⟨d.1, d.2, .inl hd, rfl⟩
    · exact ⟨u.1, u.2.2, .inr (.inl ⟨u, hu, rfl, rfl⟩), rfl⟩

theorem OnKeyed.get?_inPlace_eq_some_iff (h : w.OnKeyed base items gone changed added)
    (hkept : w.changes.truncate = false) {k : K.Carrier} {e : T.Element} :
    (kept w.changes.truncate base (gone.map Prod.fst ++ changed.map Prod.fst)).get? k = some e ↔
      (∀ c ∈ w.changes.touched, c.slot ≠ .key k) ∧ base.get? k = some e := by
  have hslots : k ∈ gone.map Prod.fst ++ changed.map Prod.fst ↔
      ∃ c ∈ w.changes.touched, c.slot = .key k := by
    rw [h.touched_eq]
    simp [entryChange, or_and_right, exists_or]
  rw [kept, hkept, SortedMap.get?_foldl_erase_eq_some_iff, hslots]
  simp

theorem OnKeyed.mem_inPlace_or_touched (h : w.OnKeyed base items gone changed added)
    (hrow : ∀ c ∈ w.changes.touched, ∀ k, c.slot = .key k → base.get? k = some c.element)
    (hkept : w.changes.truncate = false) (hi : i ∈ (keyed base : Aggregate T K).ids) :
    i ∈ (w.changes.inPlace (.keyed base)).ids ∨ ∃ c ∈ w.changes.touched, T.idOf c.element = i := by
  obtain ⟨k, e, hget, rfl⟩ := mem_ids_keyed.mp hi
  by_cases htouched : ∃ c ∈ w.changes.touched, c.slot = .key k
  · obtain ⟨c, hc, hslot⟩ := htouched
    obtain rfl := Option.some.inj ((hrow c hc k hslot).symm.trans hget)
    exact .inr ⟨c, hc, rfl⟩
  · rw [h.inPlace_eq, mem_ids_keyed]
    refine .inl ⟨k, e, (h.get?_inPlace_eq_some_iff hkept).mpr ⟨?_, hget⟩, rfl⟩
    exact fun c hc hslot => htouched ⟨c, hc, hslot⟩

theorem OnKeyed.not_mem_inPlace (h : w.OnKeyed base items gone changed added)
    (hrow : ∀ c ∈ w.changes.touched, ∀ k, c.slot = .key k → base.get? k = some c.element)
    (hkept : w.changes.truncate = false) (hnodup : (keyed base : Aggregate T K).ids.Nodup)
    {c : ElementChange T.Element K.Carrier} (hc : c ∈ w.changes.touched) :
    T.idOf c.element ∉ (w.changes.inPlace (.keyed base)).ids := by
  obtain ⟨k, hslot⟩ : ∃ k, c.slot = .key k := by
    rw [h.touched_eq] at hc
    obtain ⟨d, _, rfl⟩ := List.mem_map.mp hc
    exact ⟨d.1, rfl⟩
  rw [h.inPlace_eq, mem_ids_keyed]
  rintro ⟨j, x, hget, hsame⟩
  obtain ⟨huntouched, hbase⟩ := (h.get?_inPlace_eq_some_iff hkept).mp hget
  obtain rfl := key_eq_of_nodup_ids hnodup (hrow c hc k hslot) hbase hsame.symm
  exact huntouched c hc hslot

end Keyed

theorem mem_ids_of_elementAt? {stored : Aggregate T K} {slot : Slot K.Carrier} {e : T.Element}
    (h : stored.elementAt? slot = some e) : T.idOf e ∈ stored.ids := by
  obtain ⟨slots, i, rfl, rfl, hget⟩ | ⟨items, k, rfl, rfl, hget⟩ := elementAt?_cases h
  · rw [Option.join_eq_some_iff] at hget
    exact mem_ids.mpr ⟨e, List.mem_filterMap.mpr ⟨_, List.mem_of_getElem? hget, rfl⟩, rfl⟩
  · exact mem_ids_keyed.mpr ⟨k, e, hget, rfl⟩

/-- The work has displaced the elements of the rows that it touches, under a key the very element
that is stored there. It has displaced stored elements only, and as long as it does not truncate it
touches a row of the identity of each. -/
structure Accounts (w : QueueWork T.Element K.Carrier) (stored : Aggregate T K) : Prop where
  touched : ∀ c ∈ w.changes.touched, c.element ∈ w.displaced
  row : ∀ c ∈ w.changes.touched, ∀ k, c.slot = .key k →
    stored.elementAt? (.key k) = some c.element
  found : ∀ e ∈ w.displaced, T.idOf e ∈ stored.ids
  named : w.changes.truncate = false → ∀ e ∈ w.displaced,
    ∃ c ∈ w.changes.touched, T.idOf c.element = T.idOf e

namespace Accounts

variable {stored : Aggregate T K} {w' : QueueWork T.Element K.Carrier}

theorem of_perm (h : w.Accounts stored) (htouched : w'.changes.touched.Perm w.changes.touched)
    (htruncate : w'.changes.truncate = w.changes.truncate)
    (hdisplaced : ∀ e, e ∈ w'.displaced ↔ e ∈ w.displaced) : w'.Accounts stored where
  touched c hc := (hdisplaced _).mpr (h.touched c (htouched.mem_iff.mp hc))
  row c hc := h.row c (htouched.mem_iff.mp hc)
  found e he := h.found e ((hdisplaced e).mp he)
  named hkept e he := by
    obtain ⟨c, hc, hid⟩ := h.named (htruncate.symm.trans hkept) e ((hdisplaced e).mp he)
    exact ⟨c, htouched.mem_iff.mpr hc, hid⟩

theorem touch (h : w.Accounts stored) {slot : Slot K.Carrier} {e : T.Element}
    (htouched : w'.changes.touched.Perm (⟨slot, e⟩ :: w.changes.touched))
    (htruncate : w'.changes.truncate = w.changes.truncate)
    (hdisplaced : w'.displaced = w.displaced ++ [e]) (hfound : T.idOf e ∈ stored.ids)
    (hrow : ∀ k, slot = .key k → stored.elementAt? (.key k) = some e) : w'.Accounts stored where
  touched c hc := by
    rw [hdisplaced, List.mem_append]
    rcases List.mem_cons.mp (htouched.mem_iff.mp hc) with rfl | hc
    · exact .inr (List.mem_singleton_self _)
    · exact .inl (h.touched c hc)
  row c hc := by
    rcases List.mem_cons.mp (htouched.mem_iff.mp hc) with rfl | hc
    · exact hrow
    · exact h.row c hc
  found d hd := by
    rw [hdisplaced, List.mem_append] at hd
    rcases hd with hd | hd
    · exact h.found d hd
    · rw [List.mem_singleton.mp hd]
      exact hfound
  named hkept d hd := by
    rw [hdisplaced, List.mem_append] at hd
    rcases hd with hd | hd
    · obtain ⟨c, hc, hid⟩ := h.named (htruncate.symm.trans hkept) d hd
      exact ⟨c, htouched.mem_iff.mpr (List.mem_cons_of_mem _ hc), hid⟩
    · rw [List.mem_singleton.mp hd]
      exact ⟨_, htouched.mem_iff.mpr List.mem_cons_self, rfl⟩

theorem clear (h : w.Accounts stored) : (w.addOp .clear).Accounts stored where
  touched := nofun
  row := nofun
  found := h.found
  named := nofun

theorem add (h : w.Accounts stored) (slot : Slot K.Carrier) (e : T.Element) :
    (w.addOp (.add slot e)).Accounts stored :=
  h.of_perm (List.Perm.refl _) rfl fun _ => Iff.rfl

theorem delete (h : w.Accounts stored) (hkept : w.changes.truncate = false) {slot : Slot K.Carrier}
    {e : T.Element} (hfound : T.idOf e ∈ stored.ids)
    (hrow : ∀ k, slot = .key k → stored.elementAt? (.key k) = some e) :
    (w.delete slot e).Accounts stored := by
  refine h.touch ?_ ?_ rfl hfound hrow
  · simp only [QueueWork.delete, hkept, ChangeSet.touched, Bool.false_eq_true, if_false,
      List.append_assoc]
    exact List.perm_middle
  · simp only [QueueWork.delete, hkept, Bool.false_eq_true, if_false]

/-- The row of an update is deleted in place of the update, so it is touched before and after. -/
theorem deleteUpdated (h : w.Accounts stored) (hkept : w.changes.truncate = false) {k : K.Carrier}
    {u : ElementUpdate T.Element K.Carrier} {rest : List (ElementUpdate T.Element K.Carrier)}
    (hupdate : takeLast? (fun u => decide (u.slot = .key k)) w.changes.updates = some (u, rest)) :
    (({ w with changes := { w.changes with updates := rest } } : QueueWork _ _).delete (.key k)
      u.previous).Accounts stored := by
  have hperm := takeLast?_perm hupdate
  have hslot : u.slot = .key k := by simpa using takeLast?_pass hupdate
  have hmem : u.row ∈ w.changes.touched :=
    List.mem_append_right _ (List.mem_map_of_mem (hperm.mem_iff.mpr List.mem_cons_self))
  refine h.of_perm ?_ ?_ ?_
  · have hrows := (hperm.map ElementUpdate.row).append_left w.changes.deletions
    rw [List.map_cons, ElementUpdate.row, hslot] at hrows
    simp only [QueueWork.delete, hkept, ChangeSet.touched, Bool.false_eq_true, if_false,
      List.append_assoc]
    exact hrows.symm
  · simp only [QueueWork.delete, hkept, Bool.false_eq_true, if_false]
  · intro d
    simp only [QueueWork.delete, List.mem_append, List.mem_singleton, or_iff_left_iff_imp]
    intro hd
    rw [hd]
    exact h.touched _ hmem

/-- A removal takes back an insertion, or touches a row: one that is touched already, or another
one of its slot. -/
theorem remove (h : w.Accounts stored) {slot : Slot K.Carrier} {e : T.Element}
    (hstored : (∀ c ∈ w.changes.insertions, concerns slot e c = false) →
      w.changes.truncate = false ∧
        ((∀ k, slot = .key k → ∀ u ∈ w.changes.updates, u.slot ≠ .key k) →
          T.idOf e ∈ stored.ids ∧ ∀ k, slot = .key k → stored.elementAt? (.key k) = some e)) :
    (w.addOp (.remove slot e)).Accounts stored := by
  rw [addOp]
  unfold QueueWork.remove
  cases htake : takeLast? (concerns slot e) w.changes.insertions with
  | some found => exact h.of_perm (List.Perm.refl _) rfl fun _ => Iff.rfl
  | none =>
    obtain ⟨hkept, hrow⟩ := hstored (takeLast?_eq_none_iff.mp htake)
    have hdelete (hnone : ∀ k, slot = .key k → ∀ u ∈ w.changes.updates, u.slot ≠ .key k) :
        (w.delete slot e).Accounts stored := h.delete hkept (hrow hnone).1 (hrow hnone).2
    cases slot with
    | unordered => exact hdelete fun _ heq => by cases heq
    | index i => exact hdelete fun _ heq => by cases heq
    | key k =>
      cases hupdate : takeLast? (fun u => decide (u.slot = .key k)) w.changes.updates with
      | some found => exact h.deleteUpdated hkept hupdate
      | none =>
        refine hdelete ?_
        rintro _ ⟨⟩ u hu
        exact of_decide_eq_false (takeLast?_eq_none_iff.mp hupdate u hu)

/-- A replacement changes an insertion or an update, or it touches another row. -/
theorem replace (h : w.Accounts stored) {k : K.Carrier} {old new : T.Element}
    (hstored : (∀ c ∈ w.changes.insertions, concerns (.key k) old c = false) →
      (∀ u ∈ w.changes.updates, u.slot ≠ .key k) → stored.elementAt? (.key k) = some old) :
    (w.addOp (.replace (.key k) old new)).Accounts stored := by
  rw [addOp]
  unfold QueueWork.replace
  cases hinsertion : changeLast? (concerns (.key k) old) (fun c => { c with element := new })
      w.changes.insertions with
  | some insertions => exact h.of_perm (List.Perm.refl _) rfl fun _ => Iff.rfl
  | none =>
    cases hupdate : changeLast? (fun u => decide (u.slot = .key k))
        (fun u => { u with element := new }) w.changes.updates with
    | some updates =>
      refine h.of_perm (List.Perm.of_eq ?_) rfl fun _ => Iff.rfl
      have hrows := map_changeLast? (g := ElementUpdate.row) hupdate fun _ => rfl
      simp only [ChangeSet.touched, hrows]
    | none =>
      have hold := hstored (changeLast?_eq_none_iff.mp hinsertion) fun u hu =>
        of_decide_eq_false (changeLast?_eq_none_iff.mp hupdate u hu)
      have htouched : ({ w.changes with updates := w.changes.updates ++ [⟨.key k, old, new⟩] } :
          ChangeSet T.Element K.Carrier).touched.Perm (⟨.key k, old⟩ :: w.changes.touched) := by
        simp only [ChangeSet.touched, List.map_append, ← List.append_assoc]
        exact List.perm_append_singleton _ _
      refine h.touch htouched rfl rfl (mem_ids_of_elementAt? hold) ?_
      rintro _ ⟨⟩
      exact hold

end Accounts

section Steps

variable {queue : List (QueuedOp T.Element K.Carrier)} {op : QueuedOp T.Element K.Carrier}
variable {next : Aggregate T K}

/-- In a sequence an element is known to be stored if its removal was queued. -/
theorem OnSequence.accounts {base slots : List (Option T.Element)} {gone added : List T.Element}
    (h : w.OnSequence queue base slots gone added)
    (haccounts : w.Accounts (.sequence base : Aggregate T K))
    (step : QueueStep queue (.sequence slots) op next)
    (hfound : ∀ e, op = .remove .unordered e → T.idOf e ∈ (sequence base : Aggregate T K).ids) :
    (w.addOp op).Accounts (.sequence base : Aggregate T K) := by
  cases step with
  | clear => exact haccounts.clear
  | append _ e => exact haccounts.add _ e
  | removeFirst _ e hnone =>
    refine haccounts.remove fun _ => ⟨?_, fun _ => ⟨hfound e rfl, nofun⟩⟩
    rw [← Bool.not_eq_true]
    exact fun htrue => (not_mem_of_queuedMembership_none hnone).1 (h.truncated htrue)

theorem OnSet.accounts {base items : SortedMap T.Id T.Element} {gone added : List T.Element}
    (h : w.OnSet base items gone added) (hkeyed : (set base : Aggregate T K).KeyedById)
    (haccounts : w.Accounts (.set base : Aggregate T K))
    (step : QueueStep queue (.set items) op next) :
    (w.addOp op).Accounts (.set base : Aggregate T K) := by
  cases step with
  | clear => exact haccounts.clear
  | insert _ e _ => exact haccounts.add _ e
  | erase _ e hsome =>
    refine haccounts.remove fun hinserted => ?_
    have hwritten : T.idOf e ∉ w.written := by
      rw [written, h.updates, List.map_nil, List.append_nil]
      intro hmem
      obtain ⟨c, hc, hid⟩ := List.mem_map.mp hmem
      have hslot : c.slot = .unordered := by
        rw [h.insertions] at hc
        obtain ⟨d, _, rfl⟩ := List.mem_map.mp hc
        rfl
      simpa [concerns, hslot, ElementType.same, hid] using hinserted c hc
    have hkept := (h.get?_ne_none_iff.mp hsome).resolve_right hwritten
    obtain ⟨d, hd⟩ := Option.ne_none_iff_exists'.mp hkept
    obtain ⟨_, hd⟩ := SortedMap.get?_foldl_erase_eq_some_iff.mp hd
    split at hd
    next => cases hd
    next htruncate =>
      refine ⟨Bool.eq_false_iff.mpr htruncate, fun _ => ⟨?_, ?_⟩⟩
      · rw [mem_ids_set hkeyed, hd]
        exact Option.some_ne_none d
      · rintro k ⟨⟩

theorem OnKeyed.get?_base {base items : SortedMap K.Carrier T.Element}
    {gone added : List (K.Carrier × T.Element)}
    {changed : List (K.Carrier × T.Element × T.Element)} {k : K.Carrier} {e : T.Element}
    (h : w.OnKeyed base items gone changed added) (hget : items.get? k = some e)
    (hinserted : ∀ c ∈ w.changes.insertions, concerns (.key k) e c = false)
    (hupdated : ∀ u ∈ w.changes.updates, u.slot ≠ .key k) :
    w.changes.truncate = false ∧ base.get? k = some e := by
  rcases h.get?_eq_some_iff.mp hget with hd | ⟨u, hu, rfl, _⟩ | hkept
  · have hmem : entryChange (k, e) ∈ w.changes.insertions := by
      rw [h.insertions]
      exact List.mem_map_of_mem hd
    simpa [concerns, entryChange] using hinserted _ hmem
  · have hmem : entryUpdate u ∈ w.changes.updates := by
      rw [h.updates]
      exact List.mem_map_of_mem hu
    exact absurd rfl (hupdated _ hmem)
  · obtain ⟨_, hbase⟩ := SortedMap.get?_foldl_erase_eq_some_iff.mp hkept
    split at hbase
    next => cases hbase
    next htruncate => exact ⟨Bool.eq_false_iff.mpr htruncate, hbase⟩

theorem OnKeyed.accounts {base items : SortedMap K.Carrier T.Element}
    {gone added : List (K.Carrier × T.Element)}
    {changed : List (K.Carrier × T.Element × T.Element)}
    (h : w.OnKeyed base items gone changed added)
    (haccounts : w.Accounts (.keyed base : Aggregate T K))
    (step : QueueStep queue (.keyed items) op next) :
    (w.addOp op).Accounts (.keyed base : Aggregate T K) := by
  cases step with
  | clear => exact haccounts.clear
  | put _ k e _ => exact haccounts.add _ e
  | replace _ k old new hget =>
    exact haccounts.replace fun hinserted hupdated => (h.get?_base hget hinserted hupdated).2
  | take _ k old hget =>
    refine haccounts.remove fun hinserted => ⟨?_, fun hupdated => ?_⟩
    · refine h.truncate_eq_false (by rw [hget]; nofun) fun d hd => ?_
      have hmem : entryChange d ∈ w.changes.insertions := by
        rw [h.insertions]
        exact List.mem_map_of_mem hd
      simpa [concerns, entryChange] using hinserted _ hmem
    · have hbase := (h.get?_base hget hinserted (hupdated k rfl)).2
      refine ⟨mem_ids_keyed.mpr ⟨k, old, hbase, rfl⟩, ?_⟩
      rintro _ ⟨⟩
      exact hbase

end Steps

theorem truncate_addOp (w : QueueWork T.Element K.Carrier) (op : QueuedOp T.Element K.Carrier) :
    (w.addOp op).changes.truncate = true ↔ w.changes.truncate = true ∨ op = .clear := by
  have hdelete (w : QueueWork T.Element K.Carrier) (slot : Slot K.Carrier) (e : T.Element) :
      (w.delete slot e).changes.truncate = w.changes.truncate := by
    rw [delete]
    split <;> rfl
  cases op with
  | clear => simp [addOp]
  | add slot e => simp [addOp]
  | remove slot e =>
    simp only [addOp, reduceCtorEq, or_false]
    unfold QueueWork.remove
    split
    next => rfl
    next =>
      split
      next => split <;> rw [hdelete]
      next => rw [hdelete]
  | replace slot old new =>
    simp only [addOp, reduceCtorEq, or_false]
    unfold QueueWork.replace
    split
    next => rfl
    next => split <;> rfl

theorem truncate_ofQueue (queue : List (QueuedOp T.Element K.Carrier)) :
    (ofQueue queue).changes.truncate = true ↔ .clear ∈ queue := by
  have hfold : ∀ w : QueueWork T.Element K.Carrier,
      (queue.foldl addOp w).changes.truncate = true ↔
        w.changes.truncate = true ∨ .clear ∈ queue := by
    induction queue with
    | nil => simp
    | cons op queue ih =>
      intro w
      rw [List.foldl_cons, ih, truncate_addOp, List.mem_cons, or_assoc, eq_comm (a := op)]
  rw [ofQueue, hfold]
  simp

end QueueWork

namespace QueueRun

open Aggregate QueueWork

variable {queue : List (QueuedOp T.Element K.Carrier)} {stored now : Aggregate T K} {i : T.Id}

theorem accounts (run : QueueRun stored queue now) (hkeyed : stored.KeyedById)
    (hfound : stored.shape = .sequence → ∀ e, .remove .unordered e ∈ queue →
      T.idOf e ∈ stored.ids) : (ofQueue queue).Accounts stored := by
  induction run with
  | nil => exact ⟨nofun, nofun, nofun, fun _ => nofun⟩
  | @snoc queue now next op run step ih =>
    have haccounts := ih fun hshape e he => hfound hshape e (List.mem_append_left _ he)
    rw [ofQueue_snoc]
    cases hstored : stored with
    | sequence base =>
      subst hstored
      obtain ⟨slots, gone, added, rfl, h⟩ := run.onSequence rfl
      refine h.accounts haccounts step fun e he => hfound rfl e ?_
      rw [he]
      exact List.mem_append_right _ (List.mem_singleton_self _)
    | set base =>
      subst hstored
      obtain ⟨items, gone, added, rfl, h⟩ := run.onSet rfl
      exact h.accounts hkeyed haccounts step
    | keyed base =>
      subst hstored
      obtain ⟨items, gone, changed, added, rfl, h⟩ := run.onKeyed rfl
      exact h.accounts haccounts step

/-- What is stored after the queue is what is left in place and what the work writes. -/
theorem mem_ids_iff (run : QueueRun stored queue now) (hkeyed : stored.KeyedById) :
    i ∈ now.ids ↔
      i ∈ ((ofQueue queue).changes.inPlace stored).ids ∨ i ∈ (ofQueue queue).written := by
  cases stored with
  | sequence base =>
    obtain ⟨slots, gone, added, rfl, h⟩ := run.onSequence rfl
    rw [h.ids_eq, List.mem_append]
  | set base =>
    have hnow := run.keyedById hkeyed
    obtain ⟨items, gone, added, rfl, h⟩ := run.onSet rfl
    exact h.mem_ids_iff hkeyed hnow
  | keyed base =>
    obtain ⟨items, gone, changed, added, rfl, h⟩ := run.onKeyed rfl
    exact h.mem_ids_iff

/-- As long as nothing is cleared, a stored identity is left in place or displaced. -/
theorem mem_inPlace_or_displaced (run : QueueRun stored queue now) (hkeyed : stored.KeyedById)
    (haccounts : (ofQueue queue).Accounts stored) (hclear : .clear ∉ queue) (hi : i ∈ stored.ids) :
    i ∈ ((ofQueue queue).changes.inPlace stored).ids ∨
      i ∈ (ofQueue queue).displaced.map T.idOf := by
  have hkept : (ofQueue queue).changes.truncate = false := by
    rw [← Bool.not_eq_true, truncate_ofQueue]
    exact hclear
  have htouched : i ∈ ((ofQueue queue).changes.inPlace stored).ids ∨
      ∃ c ∈ (ofQueue queue).changes.touched, T.idOf c.element = i := by
    cases stored with
    | sequence base =>
      obtain ⟨slots, gone, added, -, h⟩ := run.onSequence rfl
      exact h.mem_inPlace_or_touched hkept hi
    | set base =>
      obtain ⟨items, gone, added, -, h⟩ := run.onSet rfl
      exact h.mem_inPlace_or_touched hkeyed hkept hi
    | keyed base =>
      obtain ⟨items, gone, changed, added, -, h⟩ := run.onKeyed rfl
      exact h.mem_inPlace_or_touched haccounts.row hkept hi
  rcases htouched with hplace | ⟨c, hc, rfl⟩
  · exact .inl hplace
  · exact .inr (List.mem_map_of_mem (haccounts.touched c hc))

theorem not_mem_inPlace_of_nodup (run : QueueRun stored queue now) (hkeyed : stored.KeyedById)
    (haccounts : (ofQueue queue).Accounts stored) (hnodup : stored.ids.Nodup) {e : T.Element}
    (he : e ∈ (ofQueue queue).displaced) :
    T.idOf e ∉ ((ofQueue queue).changes.inPlace stored).ids := by
  cases hkept : (ofQueue queue).changes.truncate with
  | true => exact ChangeSet.not_mem_inPlace_of_truncate hkept stored _
  | false =>
    obtain ⟨c, hc, hid⟩ := haccounts.named hkept e he
    rw [← hid]
    cases stored with
    | sequence base =>
      obtain ⟨slots, gone, added, -, h⟩ := run.onSequence rfl
      exact h.not_mem_inPlace hkept hnodup hc
    | set base =>
      obtain ⟨items, gone, added, -, h⟩ := run.onSet rfl
      exact h.not_mem_inPlace hkeyed hc
    | keyed base =>
      obtain ⟨items, gone, changed, added, -, h⟩ := run.onKeyed rfl
      exact h.not_mem_inPlace haccounts.row hkept hnodup hc

end QueueRun

end LazyCollections
