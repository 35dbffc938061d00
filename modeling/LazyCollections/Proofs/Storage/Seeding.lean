import LazyCollections.Proofs.Aggregate.Contents
import LazyCollections.Proofs.Storage.Delivery

/-!
# Stores that were seeded

A seeded store knows the type of a role and has the rows of an owner written from a list of
elements or entries. If no two of them have one identity or one key, the rows hold the contents
that the list makes up.
-/

namespace LazyCollections

set_option autoImplicit false

variable {T : ElementType} {K : Scalar}

namespace Aggregate

theorem inOrder_setOfElements (elements : List T.Element) :
    (setOfElements elements : Aggregate T K).InOrder .set where
  shape_eq := rfl
  keyedById := by
    suffices h : ∀ (es : List T.Element) (m : SortedMap T.Id T.Element),
        (set m : Aggregate T K).KeyedById →
          (set ((es.map fun e => (T.idOf e, e)).foldl (fun n e => n.insert e.1 e.2) m) :
            Aggregate T K).KeyedById from h elements ∅ (keyedById_empty .set)
    intro es
    induction es with
    | nil => exact fun m hm => hm
    | cons e es ih => exact fun m hm => ih _ (hm.insert e)
  nullFree := trivial

theorem inOrder_sequence (elements : List T.Element) :
    (sequence (elements.map some) : Aggregate T K).InOrder .sequence where
  shape_eq := rfl
  keyedById := trivial
  nullFree slot hslot := by
    obtain ⟨e, _, rfl⟩ := List.mem_map.mp hslot
    rfl

theorem inOrder_keyed (items : SortedMap K.Carrier T.Element) :
    (keyed items : Aggregate T K).InOrder .keyed :=
  ⟨rfl, trivial, trivial⟩

end Aggregate

namespace Store

/-- The rows of an owner's set or sequence were written from elements of a registered type. -/
structure StoresElements (T : ElementType) (store : Store) (d : Descriptor) (owner : EntityId)
    (elements : List T.Element) : Prop where
  registered : store.identities.get? d.role =
    some fun v => (T.internalize v >>= T.externalizeId).toOption
  rows : ∃ values, elements.mapM T.externalize = .ok values ∧
    store.rows? ⟨d.role, owner⟩ = some (match d.shape with
      | .set => .set values
      | _ => .sequence values)

def StoresEntries (T : ElementType) (K : Scalar) (store : Store) (d : Descriptor)
    (owner : EntityId) (entries : List (K.Carrier × T.Element)) : Prop :=
  ∃ rows, (entries.mapM fun e => return (K.toValue e.1, ← T.externalize e.2) :
      Except Error (List (Value × Value))) = .ok rows ∧
    store.rows? ⟨d.role, owner⟩ = some (.keyed rows)

variable {store after : Store} {d : Descriptor} {owner : EntityId}
variable {elements : List T.Element} {entries : List (K.Carrier × T.Element)}

theorem storesElements_of_seedElements (h : seedElements T store d owner elements = .ok after) :
    after.StoresElements T d owner elements := by
  rw [seedElements] at h
  cases hvalues : elements.mapM T.externalize with
  | error error =>
    rw [hvalues] at h
    cases h
  | ok values =>
    rw [hvalues] at h
    obtain rfl := Except.ok.inj h
    exact ⟨SortedMap.get?_insert_self _ _ _, values, hvalues, rows?_seed_self _ _ _⟩

theorem storesEntries_of_seedEntries (h : seedEntries T K store d owner entries = .ok after) :
    after.StoresEntries T K d owner entries := by
  rw [seedEntries] at h
  cases hrows : (entries.mapM fun e => return (K.toValue e.1, ← T.externalize e.2) :
      Except Error (List (Value × Value))) with
  | error error =>
    rw [hrows] at h
    cases h
  | ok rows =>
    rw [hrows] at h
    obtain rfl := Except.ok.inj h
    exact ⟨rows, hrows, rows?_seed_self _ _ _⟩

theorem mapM_externalize_eq (hT : T.Storable) (elements : List T.Element) :
    elements.mapM T.externalize = .ok (elements.map T.form) := by
  rw [funext hT.externalize_eq]
  exact List.mapM_pure

namespace StoresElements

variable (h : store.StoresElements T d owner elements)
include h

theorem identifies (hT : T.Storable) (hid : T.StorableId) : store.Identifies T d.role :=
  identifies_of_registered hT hid h.registered

theorem rows?_eq (hT : T.Storable) :
    store.rows? ⟨d.role, owner⟩ = some (match d.shape with
      | .set => .set (elements.map T.form)
      | _ => .sequence (elements.map T.form)) := by
  obtain ⟨values, hvalues, hrows⟩ := h.rows
  rw [mapM_externalize_eq hT] at hvalues
  obtain rfl := Except.ok.inj hvalues
  exact hrows

theorem holdsAt_set (hT : T.Storable) (hshape : d.shape = .set)
    (hdistinct : (elements.map T.idOf).Nodup) :
    store.HoldsAt ⟨d.role, owner⟩ (.setOfElements elements : Aggregate T K) := by
  have hrows := h.rows?_eq hT
  rw [hshape] at hrows
  refine ⟨_, hrows, .set ?_⟩
  have hkeys : ((elements.map fun e => (T.idOf e, e)).map Prod.fst).Nodup := by
    rwa [List.map_map]
  have hvalues := (SortedMap.entries_ofList_perm hkeys).map Prod.snd
  rw [List.map_map, Function.comp_def, List.map_id'] at hvalues
  exact hvalues.symm.map T.form

theorem holdsAt_sequence (hT : T.Storable) (hshape : d.shape = .sequence) :
    store.HoldsAt ⟨d.role, owner⟩ (.sequence (elements.map some) : Aggregate T K) := by
  have hrows := h.rows?_eq hT
  rw [hshape] at hrows
  have hform : elements.map T.form = (elements.map some).map T.slotForm := by
    rw [List.map_map]
    rfl
  rw [hform] at hrows
  exact ⟨_, hrows, .sequence _⟩

end StoresElements

theorem StoresEntries.holdsAt (h : store.StoresEntries T K d owner entries) (hT : T.Storable)
    (hdistinct : (entries.map Prod.fst).Nodup) :
    store.HoldsAt ⟨d.role, owner⟩ (.keyedOfEntries entries : Aggregate T K) := by
  obtain ⟨rows, hread, hrows⟩ := h
  have hforms : (entries.mapM fun e => return (K.toValue e.1, ← T.externalize e.2) :
      Except Error (List (Value × Value))) = .ok (entries.map (entryForm T K)) := by
    simp only [hT.externalize_eq]
    exact List.mapM_pure
  rw [hforms] at hread
  obtain rfl := Except.ok.inj hread
  exact ⟨_, hrows, .keyed ((SortedMap.entries_ofList_perm hdistinct).symm.map _)⟩

end Store

end LazyCollections
