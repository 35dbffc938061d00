import LazyCollections.Proofs.Changes.CarryOut
import Mathlib.Data.List.Basic
import Mathlib.Data.List.Nodup

/-!
# Identities in contents

Which identities occur in contents, as a list: an identity may occur in several slots of a sequence
and under several keys. Removing the first element of an identity removes its first occurrence.
-/

namespace LazyCollections.Aggregate

set_option autoImplicit false

variable {T : ElementType} {K : Scalar} {i : T.Id} {e : T.Element}

def ids (a : Aggregate T K) : List T.Id :=
  a.elements.map T.idOf

theorem mem_ids {a : Aggregate T K} : i ∈ a.ids ↔ ∃ e ∈ a.elements, T.idOf e = i :=
  List.mem_map

theorem has_iff {a : Aggregate T K} : a.has e = true ↔ T.idOf e ∈ a.ids := by
  simp [has, mem_ids]

theorem ids_cleared (a : Aggregate T K) : a.cleared.ids = [] := by
  cases a <;> rfl

@[simp] theorem ids_cons_none (slots : List (Option T.Element)) :
    (sequence (none :: slots) : Aggregate T K).ids = (sequence slots : Aggregate T K).ids := rfl

@[simp] theorem ids_cons_some (e : T.Element) (slots : List (Option T.Element)) :
    (sequence (some e :: slots) : Aggregate T K).ids =
      T.idOf e :: (sequence slots : Aggregate T K).ids := rfl

theorem ids_append_some (slots : List (Option T.Element)) (added : List T.Element) :
    (sequence (slots ++ added.map some) : Aggregate T K).ids =
      (sequence slots : Aggregate T K).ids ++ added.map T.idOf := by
  simp [ids, elements, List.filterMap_append, List.filterMap_map]

theorem ids_removeFirst (e : T.Element) (slots : List (Option T.Element)) :
    (sequence (QueuedOp.removeFirst e slots) : Aggregate T K).ids =
      (sequence slots : Aggregate T K).ids.erase (T.idOf e) := by
  induction slots with
  | nil => rfl
  | cons slot slots ih =>
    rw [QueuedOp.removeFirst] at ih ⊢
    cases slot with
    | none =>
      rw [List.eraseP_cons_of_neg (by simp [QueuedOp.holds]), ids_cons_none, ids_cons_none, ih]
    | some d =>
      by_cases hsame : T.idOf d = T.idOf e
      · rw [List.eraseP_cons_of_pos (by simpa [QueuedOp.holds] using hsame), ids_cons_some, hsame,
          List.erase_cons_head]
      · rw [List.eraseP_cons_of_neg (by simpa [QueuedOp.holds] using hsame), ids_cons_some,
          ids_cons_some, ih, List.erase_cons_tail (by simpa using hsame)]

theorem ids_foldl_removeFirst (gone : List T.Element) (slots : List (Option T.Element)) :
    (sequence (gone.foldl (fun s e => QueuedOp.removeFirst e s) slots) : Aggregate T K).ids =
      (sequence slots : Aggregate T K).ids.diff (gone.map T.idOf) := by
  induction gone generalizing slots with
  | nil => rfl
  | cons e gone ih => rw [List.foldl_cons, ih, ids_removeFirst, List.map_cons, List.diff_cons]

theorem ids_trimmed (a : Aggregate T K) : a.trimmed.ids = a.ids := by
  cases a with
  | sequence slots =>
    rw [trimmed]
    induction slots with
    | nil => rfl
    | cons slot slots ih =>
      rw [dropTrailingNulls]
      cases hrest : dropTrailingNulls slots with
      | cons next rest =>
        rw [hrest] at ih
        cases slot with
        | none => exact ih
        | some e => exact congrArg (T.idOf e :: ·) ih
      | nil =>
        rw [hrest] at ih
        cases slot with
        | none => exact ih
        | some e => exact congrArg (T.idOf e :: ·) ih
  | set items => rfl
  | keyed items => rfl

theorem mem_ids_set {items : SortedMap T.Id T.Element}
    (hkeyed : ∀ d ∈ items.entries, d.1 = T.idOf d.2) :
    i ∈ (set items : Aggregate T K).ids ↔ items.get? i ≠ none := by
  rw [mem_ids, Option.ne_none_iff_exists', elements, SortedMap.values]
  constructor
  · rintro ⟨e, he, rfl⟩
    obtain ⟨d, hd, rfl⟩ := List.mem_map.mp he
    exact ⟨d.2, SortedMap.get?_eq_some_iff.mpr (by rw [← hkeyed d hd]; exact hd)⟩
  · rintro ⟨e, he⟩
    have hmem := SortedMap.get?_eq_some_iff.mp he
    exact ⟨e, List.mem_map.mpr ⟨_, hmem, rfl⟩, (hkeyed _ hmem).symm⟩

theorem mem_ids_keyed {items : SortedMap K.Carrier T.Element} :
    i ∈ (keyed items : Aggregate T K).ids ↔ ∃ k e, items.get? k = some e ∧ T.idOf e = i := by
  rw [mem_ids, elements, SortedMap.values]
  constructor
  · rintro ⟨e, he, rfl⟩
    obtain ⟨d, hd, rfl⟩ := List.mem_map.mp he
    exact ⟨d.1, d.2, SortedMap.get?_eq_some_iff.mpr hd, rfl⟩
  · rintro ⟨k, e, he, rfl⟩
    exact ⟨e, List.mem_map.mpr ⟨_, SortedMap.get?_eq_some_iff.mp he, rfl⟩, rfl⟩

/-- In a keyed collection that has every identity once, the identity of an entry is under its key
only. -/
theorem key_eq_of_nodup_ids {items : SortedMap K.Carrier T.Element}
    (hnodup : (keyed items : Aggregate T K).ids.Nodup) {k j : K.Carrier} {e d : T.Element}
    (he : items.get? k = some e) (hd : items.get? j = some d) (hsame : T.idOf e = T.idOf d) :
    k = j := by
  rw [ids, elements, SortedMap.values, List.map_map] at hnodup
  have heq := List.inj_on_of_nodup_map hnodup (SortedMap.get?_eq_some_iff.mp he)
    (SortedMap.get?_eq_some_iff.mp hd) hsame
  exact congrArg Prod.fst heq

theorem ids_deleteRow_subset (a : Aggregate T K) (slot : Slot K.Carrier) (e : T.Element) :
    (a.deleteRow slot e).ids ⊆ a.ids := by
  have hvalues {κ : Type} [Ord κ] (m : SortedMap κ T.Element) (k : κ) :
      (m.erase k).values.map T.idOf ⊆ m.values.map T.idOf :=
    List.map_subset _ (List.map_subset _ (SortedMap.erase_subset m k))
  cases a with
  | sequence slots =>
    have hfirst : (sequence (QueuedOp.removeFirst e slots) : Aggregate T K).ids ⊆
        (sequence slots : Aggregate T K).ids := by
      rw [ids_removeFirst]
      exact List.erase_subset
    cases slot with
    | unordered => exact hfirst
    | key k => exact hfirst
    | index i =>
      refine List.map_subset _ fun d hd => ?_
      obtain ⟨slot, hslot, rfl⟩ := List.mem_filterMap.mp hd
      rcases List.mem_or_eq_of_mem_set hslot with hslot | hslot
      · exact List.mem_filterMap.mpr ⟨_, hslot, rfl⟩
      · cases hslot
  | set items => exact hvalues items _
  | keyed items =>
    cases slot with
    | key k => exact hvalues items k
    | unordered => exact List.Subset.refl _
    | index i => exact List.Subset.refl _

end LazyCollections.Aggregate
