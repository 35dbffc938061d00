import LazyCollections.Proofs.Element.Laws
import LazyCollections.Proofs.SortedMap.Folds
import LazyCollections.Queue.Operation

/-!
# Contents in order

In a set every element stands under its own identity, and the sequences that are built without
nulls have none. Such contents hold an element of an identity where its slot or its entry says so.
-/

namespace LazyCollections.Aggregate

set_option autoImplicit false

variable {T : ElementType} {K : Scalar}

/-- In a set every element stands under its own identity. -/
def KeyedById : Aggregate T K → Prop
  | sequence _ | keyed _ => True
  | set items => ∀ e ∈ items.entries, e.1 = T.idOf e.2

def NullFree : Aggregate T K → Prop
  | sequence slots => ∀ slot ∈ slots, slot.isSome
  | set _ | keyed _ => True

def has (a : Aggregate T K) (e : T.Element) : Bool :=
  a.elements.any fun d => T.same d e

/-- The contents of a collection of one shape as they are kept all along. -/
structure InOrder (a : Aggregate T K) (shape : Shape) : Prop where
  shape_eq : a.shape = shape
  keyedById : a.KeyedById
  nullFree : a.NullFree

theorem exists_eq_sequence {a : Aggregate T K} (h : a.shape = .sequence) :
    ∃ slots, a = sequence slots := by
  cases a with
  | sequence slots => exact ⟨slots, rfl⟩
  | set items | keyed items => cases h

theorem exists_eq_set {a : Aggregate T K} (h : a.shape = .set) : ∃ items, a = set items := by
  cases a with
  | set items => exact ⟨items, rfl⟩
  | sequence slots | keyed items => cases h

theorem exists_eq_keyed {a : Aggregate T K} (h : a.shape = .keyed) : ∃ items, a = keyed items := by
  cases a with
  | keyed items => exact ⟨items, rfl⟩
  | sequence slots | set items => cases h

theorem eq_empty_of_isEmpty {a : Aggregate T K} (h : a.isEmpty = true) : a = empty a.shape := by
  have hsize : a.size = 0 := of_decide_eq_true h
  cases a with
  | sequence slots => exact congrArg sequence (List.eq_nil_of_length_eq_zero hsize)
  | set items => exact congrArg set (SortedMap.ext (List.eq_nil_of_length_eq_zero hsize))
  | keyed items => exact congrArg keyed (SortedMap.ext (List.eq_nil_of_length_eq_zero hsize))

theorem keyedById_empty (shape : Shape) : (empty shape : Aggregate T K).KeyedById := by
  cases shape with
  | sequence => trivial
  | set => exact fun e he => absurd he List.not_mem_nil
  | keyed => trivial

namespace KeyedById

variable {items kept : SortedMap T.Id T.Element} (h : (set items : Aggregate T K).KeyedById)
include h

theorem insert (e : T.Element) :
    (set (items.insert (T.idOf e) e) : Aggregate T K).KeyedById := by
  intro d hd
  rcases SortedMap.mem_entries_insert.mp hd with rfl | ⟨hd, _⟩
  · rfl
  · exact h d hd

theorem insertIfNew (e : T.Element) :
    (set (items.insertIfNew (T.idOf e) e) : Aggregate T K).KeyedById := by
  unfold SortedMap.insertIfNew
  split
  next => exact h
  next => exact h.insert e

theorem of_subset (hkept : kept.entries ⊆ items.entries) :
    (set kept : Aggregate T K).KeyedById :=
  fun d hd => h d (hkept hd)

end KeyedById

theorem keyedById_setOfFirst (elements : List T.Element) :
    (setOfFirst elements : Aggregate T K).KeyedById := by
  have hfold (items : SortedMap T.Id T.Element) (h : (set items : Aggregate T K).KeyedById) :
      (set (elements.foldl (fun items e => items.insertIfNew (T.idOf e) e) items) :
        Aggregate T K).KeyedById := by
    induction elements generalizing items with
    | nil => exact h
    | cons e elements ih => exact ih _ (h.insertIfNew e)
  exact hfold ∅ (keyedById_empty .set)

theorem deepCopy_eq {shape : Shape} (hT : T.Faithful shape) (a : Aggregate T K) :
    a.deepCopy = a := by
  have hcopy : T.deepCopy = id := funext hT.deepCopy_eq
  have hvalues : ∀ {κ : Type} [Ord κ] (m : SortedMap κ T.Element), m.mapValues id = m := by
    intro κ _ m
    apply SortedMap.ext
    exact List.map_id _
  cases a with
  | sequence slots => simp [deepCopy, hcopy]
  | set items => rw [deepCopy, hcopy, hvalues]
  | keyed items => rw [deepCopy, hcopy, hvalues]

theorem has_sequence (slots : List (Option T.Element)) (e : T.Element) :
    (sequence slots : Aggregate T K).has e = slots.any (QueuedOp.holds T e) := by
  rw [has, elements]
  induction slots with
  | nil => rfl
  | cons slot slots ih =>
    cases slot with
    | none => exact ih
    | some d =>
      rw [List.any_cons, ← ih]
      rfl

theorem has_set {items : SortedMap T.Id T.Element}
    (hkeyed : ∀ d ∈ items.entries, d.1 = T.idOf d.2) (e : T.Element) :
    (set items : Aggregate T K).has e = items.contains (T.idOf e) := by
  rw [has, elements, SortedMap.values, List.any_map, Bool.eq_iff_iff, List.any_eq_true,
    SortedMap.contains_iff]
  constructor
  · rintro ⟨d, hd, hsame⟩
    refine ⟨d.2, SortedMap.get?_eq_some_iff.mpr ?_⟩
    rw [← ElementType.same_iff.mp hsame, ← hkeyed d hd]
    exact hd
  · rintro ⟨d, hd⟩
    have hmem := SortedMap.get?_eq_some_iff.mp hd
    exact ⟨_, hmem, ElementType.same_iff.mpr (hkeyed _ hmem).symm⟩

namespace InOrder

variable {shape : Shape} {items : SortedMap T.Id T.Element} {slots kept : List (Option T.Element)}

theorem cleared {a : Aggregate T K} (h : a.InOrder shape) : a.cleared.InOrder shape where
  shape_eq := (shape_cleared a).trans h.shape_eq
  keyedById := keyedById_empty a.shape
  nullFree := by
    cases a with
    | sequence slots => exact fun slot hslot => absurd hslot List.not_mem_nil
    | set items => trivial
    | keyed items => trivial

theorem insert (h : (set items : Aggregate T K).InOrder shape) (e : T.Element) :
    (set (items.insert (T.idOf e) e) : Aggregate T K).InOrder shape where
  shape_eq := h.shape_eq
  keyedById := h.keyedById.insert e
  nullFree := trivial

theorem of_subset {kept : SortedMap T.Id T.Element}
    (h : (set items : Aggregate T K).InOrder shape) (hkept : kept.entries ⊆ items.entries) :
    (set kept : Aggregate T K).InOrder shape where
  shape_eq := h.shape_eq
  keyedById := h.keyedById.of_subset hkept
  nullFree := trivial

theorem keyed {items next : SortedMap K.Carrier T.Element}
    (h : (keyed items : Aggregate T K).InOrder shape) :
    (Aggregate.keyed next : Aggregate T K).InOrder shape :=
  ⟨h.shape_eq, trivial, trivial⟩

end InOrder

end LazyCollections.Aggregate
