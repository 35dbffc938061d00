import LazyCollections.Proofs.Changes.CarryOut
import LazyCollections.Proofs.Element.Laws
import LazyCollections.Proofs.SortedMap.Folds
import LazyCollections.Storage.Database

/-!
# Rows that hold contents

The rows of a sequence hold its slots one by one; the rows of a set or of a keyed collection hold
its entries in any order. Deleting or writing one row keeps this up with the contents without the
element or with it.
-/

namespace LazyCollections

set_option autoImplicit false

variable {T : ElementType} {K : Scalar}

def entryForm (T : ElementType) (K : Scalar) (e : K.Carrier × T.Element) : Value × Value :=
  (K.toValue e.1, T.form e.2)

/-- Two stored elements have one identity exactly if their elements have. -/
def ElementType.IdentifiedBy (T : ElementType) (identify : Value → Value) : Prop :=
  ∀ a b : T.Element, identify (T.form a) = identify (T.form b) ↔ T.idOf a = T.idOf b

namespace StoredRows

inductive Holds : StoredRows → Aggregate T K → Prop
  | sequence (slots : List (Option T.Element)) :
    Holds (sequence (slots.map T.slotForm)) (.sequence slots)
  | set {rows : List Value} {items : SortedMap T.Id T.Element}
    (h : rows.Perm (items.values.map T.form)) : Holds (set rows) (.set items)
  | keyed {rows : List (Value × Value)} {items : SortedMap K.Carrier T.Element}
    (h : rows.Perm (items.entries.map (entryForm T K))) : Holds (keyed rows) (.keyed items)

theorem holds_empty (shape : Shape) :
    Holds (empty shape) (Aggregate.empty shape : Aggregate T K) := by
  cases shape with
  | sequence => exact .sequence []
  | set => exact .set (List.Perm.refl _)
  | keyed => exact .keyed (List.Perm.refl _)

end StoredRows

theorem Scalar.Restores.toValue_eq_iff (hK : K.Restores) {k j : K.Carrier} :
    K.toValue k = K.toValue j ↔ k = j := by
  constructor
  · intro h
    have hk := hK k
    rw [h, hK j] at hk
    exact (Option.some.inj hk).symm
  · exact congrArg K.toValue

section Rows

variable {identify : Value → Value} {rows : List Value}

theorem holds_slot_iff (hT : T.Storable) (hid : T.IdentifiedBy identify) (e : T.Element)
    (slot : Option T.Element) :
    (!(T.slotForm slot).isNull && identify (T.slotForm slot) == identify (T.form e)) =
      QueuedOp.holds T e slot := by
  cases slot with
  | none => rfl
  | some found =>
    rw [hT.isNull_slotForm, Bool.eq_iff_iff]
    simp [ElementType.slotForm, QueuedOp.holds, hid found e]

theorem eraseP_slotForms (hT : T.Storable) (hid : T.IdentifiedBy identify) (e : T.Element)
    (slots : List (Option T.Element)) :
    ((slots.map T.slotForm).eraseP fun r => !r.isNull && identify r == identify (T.form e)) =
      (QueuedOp.removeFirst e slots).map T.slotForm := by
  rw [List.eraseP_map]
  congr 2
  funext slot
  exact holds_slot_iff hT hid e slot

theorem writeAt_slotForms (slots : List (Option T.Element)) (i : Nat) (e : T.Element) :
    StoredRows.writeAt (slots.map T.slotForm) i (T.form e) =
      (Builder.writeSlot slots i (some e)).map T.slotForm := by
  simp [StoredRows.writeAt, Builder.writeSlot, List.map_set, ElementType.slotForm]

theorem dropTrailingNulls_slotForms (hT : T.Storable) (slots : List (Option T.Element)) :
    StoredRows.dropTrailingNulls (slots.map T.slotForm) =
      (Aggregate.dropTrailingNulls slots).map T.slotForm := by
  induction slots with
  | nil => rfl
  | cons slot slots ih =>
    rw [List.map_cons, StoredRows.dropTrailingNulls, ih, Aggregate.dropTrailingNulls]
    cases Aggregate.dropTrailingNulls slots with
    | nil =>
      rw [List.map_nil, hT.isNull_slotForm]
      cases slot <;> rfl
    | cons next rest => rfl

section Sets

variable {items : SortedMap T.Id T.Element} (hkeyed : ∀ e ∈ items.entries, e.1 = T.idOf e.2)
variable (hid : T.IdentifiedBy identify) (h : rows.Perm (items.values.map T.form))
include hkeyed hid h

theorem perm_delete_set (e : T.Element) :
    (rows.filter fun r => identify r != identify (T.form e)).Perm
      ((items.erase (T.idOf e)).values.map T.form) := by
  refine (h.filter _).trans (List.Perm.of_eq ?_)
  simp only [SortedMap.values, SortedMap.erase, List.filter_map]
  congr 2
  apply List.filter_congr
  intro d hd
  rw [Bool.eq_iff_iff]
  simp [hid d.2 e, hkeyed d hd]

theorem any_identify_iff (e : T.Element) :
    (rows.any fun r => identify r == identify (T.form e)) = items.contains (T.idOf e) := by
  rw [h.any_eq, List.any_map, SortedMap.values, List.any_map, Bool.eq_iff_iff, List.any_eq_true,
    SortedMap.contains_iff]
  constructor
  · rintro ⟨d, hd, heq⟩
    have hsame : T.idOf d.2 = T.idOf e := (hid d.2 e).mp (by simpa using heq)
    refine ⟨d.2, SortedMap.get?_eq_some_iff.mpr ?_⟩
    rw [← hsame, ← hkeyed d hd]
    exact hd
  · rintro ⟨found, hfound⟩
    have hmem := SortedMap.get?_eq_some_iff.mp hfound
    exact ⟨_, hmem, by simpa using (hid found e).mpr (hkeyed _ hmem).symm⟩

theorem perm_write_set (e : T.Element) :
    (if rows.any fun r => identify r == identify (T.form e) then rows else rows ++ [T.form e]).Perm
      ((items.insertIfNew (T.idOf e) e).values.map T.form) := by
  rw [any_identify_iff hkeyed hid h e]
  cases hfound : items.get? (T.idOf e) with
  | some old =>
    rw [if_pos (SortedMap.contains_iff.mpr ⟨old, hfound⟩), SortedMap.insertIfNew_of_some hfound]
    exact h
  | none =>
    rw [if_neg (by simp [SortedMap.contains, hfound]), SortedMap.insertIfNew_of_none hfound]
    refine (List.perm_append_singleton _ _).trans ((h.cons _).trans ?_)
    exact (((SortedMap.entries_insert_perm hfound).map Prod.snd).map T.form).symm

end Sets

section Maps

variable {items : SortedMap K.Carrier T.Element} {entries : List (Value × Value)}
variable (hK : K.Restores) (h : entries.Perm (items.entries.map (entryForm T K)))
include hK h

theorem perm_delete_key (k : K.Carrier) :
    (entries.filter fun r => r.1 != K.toValue k).Perm
      ((items.erase k).entries.map (entryForm T K)) := by
  refine (h.filter _).trans (List.Perm.of_eq ?_)
  simp only [SortedMap.erase, List.filter_map]
  congr 1
  apply List.filter_congr
  intro d _
  rw [Bool.eq_iff_iff]
  simp [entryForm, hK.toValue_eq_iff]

theorem nodup_row_keys : (entries.map Prod.fst).Nodup := by
  rw [(h.map Prod.fst).nodup_iff, List.map_map]
  refine List.pairwise_map.mpr ((List.pairwise_map.mp items.nodup_keys).imp ?_)
  intro a b hne heq
  exact hne (hK.toValue_eq_iff.mp heq)

end Maps

theorem mem_writeKey_iff {k v : Value} {entries : List (Value × Value)}
    (hnodup : (entries.map Prod.fst).Nodup) {r : Value × Value} :
    r ∈ StoredRows.writeKey k v entries ↔ r = (k, v) ∨ r ∈ entries ∧ r.1 ≠ k := by
  induction entries with
  | nil => simp [StoredRows.writeKey]
  | cons row entries ih =>
    obtain ⟨hrow, hrest⟩ := List.nodup_cons.mp hnodup
    unfold StoredRows.writeKey
    split
    next heq =>
      subst heq
      have hne : ∀ d ∈ entries, d.1 ≠ row.1 := fun d hd hkey =>
        hrow (hkey ▸ List.mem_map_of_mem hd)
      rw [List.mem_cons]
      constructor
      · rintro (rfl | hr)
        · exact Or.inl rfl
        · exact Or.inr ⟨List.mem_cons_of_mem row hr, hne r hr⟩
      · rintro (rfl | ⟨hr, hkey⟩)
        · exact Or.inl rfl
        · rcases List.mem_cons.mp hr with rfl | hr
          · exact absurd rfl hkey
          · exact Or.inr hr
    next hne =>
      rw [List.mem_cons, ih hrest, List.mem_cons]
      constructor
      · rintro (rfl | rfl | ⟨hr, hkey⟩)
        · exact Or.inr ⟨Or.inl rfl, hne⟩
        · exact Or.inl rfl
        · exact Or.inr ⟨Or.inr hr, hkey⟩
      · rintro (rfl | ⟨rfl | hr, hkey⟩)
        · exact Or.inr (Or.inl rfl)
        · exact Or.inl rfl
        · exact Or.inr (Or.inr ⟨hr, hkey⟩)

theorem nodup_writeKey {k v : Value} {entries : List (Value × Value)}
    (hnodup : (entries.map Prod.fst).Nodup) : (StoredRows.writeKey k v entries).Nodup := by
  induction entries with
  | nil => simp [StoredRows.writeKey]
  | cons row entries ih =>
    obtain ⟨hrow, hrest⟩ := List.nodup_cons.mp hnodup
    have hne : ∀ d ∈ entries, d.1 ≠ row.1 := fun d hd hkey =>
      hrow (hkey ▸ List.mem_map_of_mem hd)
    unfold StoredRows.writeKey
    split
    next heq =>
      refine List.nodup_cons.mpr ⟨fun hmem => hne _ hmem rfl, ?_⟩
      exact (List.pairwise_map.mp hrest).imp fun hkey heq => hkey (congrArg Prod.fst heq)
    next hkey =>
      refine List.nodup_cons.mpr ⟨fun hmem => ?_, ih hrest⟩
      rcases (mem_writeKey_iff hrest).mp hmem with heq | ⟨hmem, _⟩
      · exact hkey (congrArg Prod.fst heq)
      · exact hne _ hmem rfl

theorem perm_write_key (hK : K.Restores) {items : SortedMap K.Carrier T.Element}
    {entries : List (Value × Value)} (h : entries.Perm (items.entries.map (entryForm T K)))
    (k : K.Carrier) (e : T.Element) :
    (StoredRows.writeKey (K.toValue k) (T.form e) entries).Perm
      ((items.insert k e).entries.map (entryForm T K)) := by
  have hrows := nodup_row_keys hK h
  have hentries : ((items.insert k e).entries.map (entryForm T K)).Nodup :=
    (List.pairwise_map.mp (nodup_row_keys hK
      (List.Perm.refl ((items.insert k e).entries.map (entryForm T K))))).imp
      fun hkey heq => hkey (congrArg Prod.fst heq)
  refine (List.perm_ext_iff_of_nodup (nodup_writeKey hrows) hentries).mpr fun r => ?_
  rw [mem_writeKey_iff hrows, h.mem_iff]
  simp only [List.mem_map, SortedMap.mem_entries_insert]
  constructor
  · rintro (rfl | ⟨⟨d, hd, rfl⟩, hkey⟩)
    · exact ⟨(k, e), Or.inl rfl, rfl⟩
    · exact ⟨d, Or.inr ⟨hd, fun heq => hkey (congrArg K.toValue heq)⟩, rfl⟩
  · rintro ⟨d, rfl | ⟨hd, hkey⟩, rfl⟩
    · exact Or.inl rfl
    · exact Or.inr ⟨⟨d, hd, rfl⟩, fun heq => hkey (hK.toValue_eq_iff.mp heq)⟩

end Rows

namespace StoredRows.Holds

variable {stored : StoredRows} {a : Aggregate T K} {identify : Value → Value}

theorem size_eq (h : Holds stored a) : stored.size = a.size := by
  cases h with
  | sequence slots => exact List.length_map _
  | set h =>
    have hlength := h.length_eq
    rwa [List.length_map, SortedMap.values, List.length_map] at hlength
  | keyed h =>
    have hlength := h.length_eq
    rwa [List.length_map] at hlength

theorem cleared (h : Holds stored a) : Holds stored.cleared a.cleared := by
  cases h with
  | sequence slots => exact holds_empty .sequence
  | set h => exact holds_empty .set
  | keyed h => exact holds_empty .keyed

section Rows

variable (hK : K.Restores) (ha : a.KeyedById)
include hK ha

/-- Rows of a set are found by their identity, and so are rows of a sequence without an index. -/
theorem delete (hT : T.Storable) (h : Holds stored a) (slot : Slot K.Carrier) (e : T.Element)
    (hid : a.shape = .set ∨ a.shape = .sequence ∧ (∀ i, slot ≠ .index i) →
      T.IdentifiedBy identify) :
    Holds (stored.delete identify (slot.map K.toValue) (T.form e)) (a.deleteRow slot e) := by
  cases h with
  | sequence slots =>
    cases slot with
    | index i =>
      have hset : (slots.map T.slotForm).set i .null = (slots.set i none).map T.slotForm := by
        rw [List.map_set]
        rfl
      simp only [StoredRows.delete, Slot.map, hset]
      exact .sequence _
    | unordered =>
      simp only [StoredRows.delete, Slot.map, eraseP_slotForms hT (hid (Or.inr ⟨rfl, nofun⟩))]
      exact .sequence _
    | key k =>
      simp only [StoredRows.delete, Slot.map, eraseP_slotForms hT (hid (Or.inr ⟨rfl, nofun⟩))]
      exact .sequence _
  | set h => exact .set (perm_delete_set ha (hid (Or.inl rfl)) h e)
  | keyed h =>
    cases slot with
    | key k => exact .keyed (perm_delete_key hK h k)
    | index i => exact .keyed h
    | unordered => exact .keyed h

theorem write (h : Holds stored a) (slot : Slot K.Carrier) (e : T.Element)
    (hid : a.shape = .set → T.IdentifiedBy identify) :
    Holds (stored.write identify (slot.map K.toValue) (T.form e)) (a.writeRow slot e) := by
  cases h with
  | sequence slots =>
    have hlast : slots.map T.slotForm ++ [T.form e] = (slots ++ [some e]).map T.slotForm := by
      rw [List.map_append]
      rfl
    cases slot with
    | index i =>
      simp only [StoredRows.write, Slot.map, writeAt_slotForms]
      exact .sequence _
    | unordered =>
      simp only [StoredRows.write, Slot.map, hlast]
      exact .sequence _
    | key k =>
      simp only [StoredRows.write, Slot.map, hlast]
      exact .sequence _
  | set h =>
    have hperm := perm_write_set ha (hid rfl) h e
    simp only [StoredRows.write]
    split
    next hfound =>
      rw [if_pos hfound] at hperm
      exact .set hperm
    next hfound =>
      rw [if_neg hfound] at hperm
      exact .set hperm
  | keyed h =>
    cases slot with
    | key k => exact .keyed (perm_write_key hK h k e)
    | index i => exact .keyed h
    | unordered => exact .keyed h

end Rows

theorem trimmed (hT : T.Storable) (h : Holds stored a) : Holds stored.trimmed a.trimmed := by
  cases h with
  | sequence slots =>
    simp only [StoredRows.trimmed, dropTrailingNulls_slotForms hT]
    exact .sequence _
  | set h => exact .set h
  | keyed h => exact .keyed h

end StoredRows.Holds

end LazyCollections
