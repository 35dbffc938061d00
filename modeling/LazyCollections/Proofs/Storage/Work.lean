import LazyCollections.Proofs.Storage.Holding

/-!
# Change sets on rows

A change set of storable elements has a stored form. Doing that work on rows that hold contents
leaves rows that hold the contents with the change set carried out. The persister does all of the
work or, when it refuses, none of it.
-/

namespace LazyCollections

set_option autoImplicit false

variable {T : ElementType} {K : Scalar}

def ChangeSet.toRowWork (T : ElementType) (K : Scalar) (c : ChangeSet T.Element K.Carrier) :
    RowWork where
  truncate := c.truncate
  deletions := c.deletions.map fun d => (d.slot.map K.toValue, T.form d.element)
  updates := c.updates.map fun u => (u.slot.map K.toValue, T.form u.element)
  insertions := c.insertions.map fun d => (d.slot.map K.toValue, T.form d.element)

namespace Database

theorem row_eq (hT : T.Storable) (slot : Slot K.Carrier) (e : T.Element) :
    row slot e = .ok (slot.map K.toValue, T.form e) := by
  rw [row, hT.externalize_eq e]
  rfl

theorem mapM_row_eq (hT : T.Storable) {α : Type} (slot : α → Slot K.Carrier)
    (element : α → T.Element) (xs : List α) :
    (xs.mapM fun x => row (slot x) (element x)) =
      .ok (xs.map fun x => ((slot x).map K.toValue, T.form (element x))) := by
  simp only [row_eq hT]
  exact List.mapM_pure

theorem rowWork_eq (hT : T.Storable) (c : ChangeSet T.Element K.Carrier) :
    rowWork c = .ok (c.toRowWork T K) := by
  simp only [rowWork, mapM_row_eq hT]
  rfl

end Database

namespace StoredRows.Holds

variable {stored : StoredRows} {a : Aggregate T K} {identify : Value → Value}
variable (hT : T.Storable) (hK : K.Restores)
include hT hK

theorem foldl_delete {α : Type} (slot : α → Slot K.Carrier) (element : α → T.Element)
    (xs : List α)
    (hid : a.shape = .set ∨ a.shape = .sequence ∧ (∃ x ∈ xs, ∀ i, slot x ≠ .index i) →
      T.IdentifiedBy identify)
    (ha : a.KeyedById) (h : Holds stored a) :
    Holds
      ((xs.map fun x => ((slot x).map K.toValue, T.form (element x))).foldl
        (fun s r => s.delete identify r.1 r.2) stored)
      (xs.foldl (fun a x => a.deleteRow (slot x) (element x)) a) := by
  induction xs generalizing stored a with
  | nil => exact h
  | cons x xs ih =>
    refine ih (fun hfinds => hid ?_) (ha.deleteRow _ _)
      (h.delete hK ha hT _ _ fun hfinds => hid ?_)
    · rw [Aggregate.shape_deleteRow] at hfinds
      obtain hset | ⟨hsequence, y, hy, hslot⟩ := hfinds
      · exact Or.inl hset
      · exact Or.inr ⟨hsequence, y, List.mem_cons_of_mem x hy, hslot⟩
    · exact hfinds.imp_right fun ⟨hsequence, hslot⟩ =>
        ⟨hsequence, x, List.mem_cons_self, hslot⟩

omit hT in
theorem foldl_write {α : Type} (slot : α → Slot K.Carrier) (element : α → T.Element)
    (xs : List α) (hid : a.shape = .set → T.IdentifiedBy identify) (ha : a.KeyedById)
    (h : Holds stored a) :
    Holds
      ((xs.map fun x => ((slot x).map K.toValue, T.form (element x))).foldl
        (fun s r => s.write identify r.1 r.2) stored)
      (xs.foldl (fun a x => a.writeRow (slot x) (element x)) a) := by
  induction xs generalizing stored a with
  | nil => exact h
  | cons x xs ih =>
    refine ih (fun hshape => hid ?_) (ha.writeRow _ _) (h.write hK ha _ _ hid)
    rwa [Aggregate.shape_writeRow] at hshape

end StoredRows.Holds

namespace Aggregate

theorem foldl_deleteRow_shape {α : Type} (slot : α → Slot K.Carrier) (element : α → T.Element)
    (xs : List α) (a : Aggregate T K) :
    (xs.foldl (fun a x => a.deleteRow (slot x) (element x)) a).shape = a.shape := by
  induction xs generalizing a with
  | nil => rfl
  | cons x xs ih => exact (ih _).trans (shape_deleteRow _ _ _)

theorem foldl_writeRow_shape {α : Type} (slot : α → Slot K.Carrier) (element : α → T.Element)
    (xs : List α) (a : Aggregate T K) :
    (xs.foldl (fun a x => a.writeRow (slot x) (element x)) a).shape = a.shape := by
  induction xs generalizing a with
  | nil => rfl
  | cons x xs ih => exact (ih _).trans (shape_writeRow _ _ _)

theorem KeyedById.foldl_deleteRow {α : Type} (slot : α → Slot K.Carrier)
    (element : α → T.Element) (xs : List α) {a : Aggregate T K} (ha : a.KeyedById) :
    (xs.foldl (fun a x => a.deleteRow (slot x) (element x)) a).KeyedById := by
  induction xs generalizing a with
  | nil => exact ha
  | cons x xs ih => exact ih (ha.deleteRow _ _)

theorem KeyedById.foldl_writeRow {α : Type} (slot : α → Slot K.Carrier)
    (element : α → T.Element) (xs : List α) {a : Aggregate T K} (ha : a.KeyedById) :
    (xs.foldl (fun a x => a.writeRow (slot x) (element x)) a).KeyedById := by
  induction xs generalizing a with
  | nil => exact ha
  | cons x xs ih => exact ih (ha.writeRow _ _)

end Aggregate

/-- The work of a change set does to rows what the change set does to the contents they hold. -/
theorem StoredRows.Holds.apply {stored : StoredRows} {a : Aggregate T K}
    {identify : Value → Value} (hT : T.Storable) (hK : K.Restores)
    (ha : a.KeyedById) (h : Holds stored a) (c : ChangeSet T.Element K.Carrier)
    (hid : c.FindsRows a.shape → T.IdentifiedBy identify) :
    Holds (stored.apply identify (c.toRowWork T K)) (c.carryOut a) := by
  have hkept : Holds (if c.truncate then stored.cleared else stored)
      (if c.truncate then a.cleared else a) := by
    split
    · exact h.cleared
    · exact h
  have hshape : (if c.truncate then a.cleared else a).shape = a.shape := by
    split
    · exact Aggregate.shape_cleared a
    · rfl
  have hkeyed : (if c.truncate then a.cleared else a).KeyedById := by
    split
    · exact Aggregate.keyedById_empty a.shape
    · exact ha
  rw [← hshape] at hid
  have hleft := hkept.foldl_delete hT hK ElementChange.slot ElementChange.element c.deletions
    hid hkeyed
  have hset : (if c.truncate then a.cleared else a).shape = .set → T.IdentifiedBy identify :=
    fun h => hid (Or.inl h)
  have hkeyed := hkeyed.foldl_deleteRow ElementChange.slot ElementChange.element c.deletions
  rw [← Aggregate.foldl_deleteRow_shape ElementChange.slot ElementChange.element c.deletions]
    at hset
  have hupdated := hleft.foldl_write hK ElementUpdate.slot ElementUpdate.element c.updates
    hset hkeyed
  have hkeyed := hkeyed.foldl_writeRow ElementUpdate.slot ElementUpdate.element c.updates
  rw [← Aggregate.foldl_writeRow_shape ElementUpdate.slot ElementUpdate.element c.updates]
    at hset
  have hwritten := hupdated.foldl_write hK ElementChange.slot ElementChange.element c.insertions
    hset hkeyed
  have hdone := hwritten.trimmed hT
  simp only [StoredRows.apply, ChangeSet.toRowWork, List.foldl_append]
  exact hdone

def Store.HoldsAt (store : Store) (key : CollectionKey) (a : Aggregate T K) : Prop :=
  ∃ rows, store.rows? key = some rows ∧ rows.Holds a

namespace Store

theorem rows?_seed_self (store : Store) (key : CollectionKey) (rows : StoredRows) :
    (store.seed key rows).rows? key = some rows :=
  SortedMap.get?_insert_self _ _ _

theorem rows?_apply_of_ne {store : Store} {d : Descriptor} {owner : EntityId} {work : RowWork}
    {key : CollectionKey} (h : key ≠ ⟨d.role, owner⟩) :
    (store.apply d owner work).rows? key = store.rows? key :=
  SortedMap.get?_insert_of_ne _ _ h.symm

theorem HoldsAt.apply {store : Store} {d : Descriptor} {owner : EntityId} {a : Aggregate T K}
    (hT : T.Storable) (hK : K.Restores)
    (ha : a.KeyedById) (h : store.HoldsAt ⟨d.role, owner⟩ a) (c : ChangeSet T.Element K.Carrier)
    (hid : c.FindsRows a.shape → T.IdentifiedBy (store.identify d.role)) :
    (store.apply d owner (c.toRowWork T K)).HoldsAt ⟨d.role, owner⟩ (c.carryOut a) := by
  obtain ⟨rows, hrows, hholds⟩ := h
  refine ⟨_, rows?_seed_self _ _ _, ?_⟩
  rw [hrows]
  exact hholds.apply hT hK ha c hid

end Store

namespace Database

theorem persister_refuses {db : Database} (h : db.refuseNext = true) (owner : EntityId)
    (d : Descriptor) (c : ChangeSet T.Element K.Carrier) :
    persister owner d c db =
      (.error (.sourceUnavailable .refused), { db with refuseNext := false }) := by
  simp [persister, h]

theorem persister_accepts (hT : T.Storable) {db : Database} (h : db.refuseNext = false)
    (owner : EntityId) (d : Descriptor) (c : ChangeSet T.Element K.Carrier) :
    persister owner d c db =
      (.ok (),
        { db with
          store := db.store.apply d owner (c.toRowWork T K)
          journal := db.journal ++ [⟨owner, d.role, c.toRowWork T K, c.orphans.length⟩] }) := by
  simp [persister, h, rowWork_eq hT]

theorem store_of_persister_ok (hT : T.Storable) {owner : EntityId} {d : Descriptor}
    {c : ChangeSet T.Element K.Carrier} {db after : Database}
    (h : persister owner d c db = (.ok (), after)) :
    after.store = db.store.apply d owner (c.toRowWork T K) := by
  cases hrefuse : db.refuseNext with
  | true =>
    rw [persister_refuses hrefuse] at h
    cases h
  | false =>
    rw [persister_accepts hT hrefuse] at h
    cases h
    rfl

theorem error_eq_refused (hT : T.Storable) {owner : EntityId} {d : Descriptor}
    {c : ChangeSet T.Element K.Carrier} {db after : Database} {error : Error}
    (h : persister owner d c db = (.error error, after)) :
    error = .sourceUnavailable .refused := by
  cases hrefuse : db.refuseNext with
  | true =>
    rw [persister_refuses hrefuse] at h
    cases h
    rfl
  | false =>
    rw [persister_accepts hT hrefuse] at h
    cases h

theorem rows?_persister_of_ne {owner : EntityId} {d : Descriptor}
    {c : ChangeSet T.Element K.Carrier} {db after : Database} {result : Except Error Unit}
    (h : persister owner d c db = (result, after)) {key : CollectionKey}
    (hkey : key ≠ ⟨d.role, owner⟩) : after.store.rows? key = db.store.rows? key := by
  unfold persister at h
  split at h
  next =>
    cases h
    rfl
  next =>
    split at h
    next =>
      cases h
      rfl
    next =>
      cases h
      exact Store.rows?_apply_of_ne hkey

theorem store_of_persister_error {owner : EntityId} {d : Descriptor}
    {c : ChangeSet T.Element K.Carrier} {db after : Database} {error : Error}
    (h : persister owner d c db = (.error error, after)) : after.store = db.store := by
  unfold persister at h
  split at h
  next =>
    cases h
    rfl
  next =>
    split at h
    next =>
      cases h
      rfl
    next => cases h

end Database

end LazyCollections
