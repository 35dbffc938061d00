import LazyCollections.Aggregate.Builder
import LazyCollections.Changes.Basic
import LazyCollections.Proofs.Aggregate.Contents

/-!
# Change sets carried out on contents

What the work of a change set amounts to on contents: everything goes if it truncates, then the
deleted rows go, then the written rows come. Null slots at the end of a sequence do not count.
-/

namespace LazyCollections

set_option autoImplicit false

variable {T : ElementType} {K : Scalar}

namespace Aggregate

/-- The contents without a row. An indexed row leaves a null slot. -/
def deleteRow (slot : Slot K.Carrier) (e : T.Element) : Aggregate T K → Aggregate T K
  | sequence slots =>
    match slot with
    | .index i => sequence (slots.set i none)
    | _ => sequence (QueuedOp.removeFirst e slots)
  | set items => set (items.erase (T.idOf e))
  | keyed items =>
    match slot with
    | .key k => keyed (items.erase k)
    | _ => keyed items

/-- The contents with one more row. A set keeps the element that has the identity already. -/
def writeRow (slot : Slot K.Carrier) (e : T.Element) : Aggregate T K → Aggregate T K
  | sequence slots =>
    match slot with
    | .index i => sequence (Builder.writeSlot slots i (some e))
    | _ => sequence (slots ++ [some e])
  | set items => set (items.insertIfNew (T.idOf e) e)
  | keyed items =>
    match slot with
    | .key k => keyed (items.insert k e)
    | _ => keyed items

def dropTrailingNulls {ε : Type} : List (Option ε) → List (Option ε)
  | [] => []
  | slot :: slots =>
    match dropTrailingNulls slots with
    | [] => if slot.isNone then [] else [slot]
    | rest => slot :: rest

def trimmed : Aggregate T K → Aggregate T K
  | sequence slots => sequence (dropTrailingNulls slots)
  | other => other

@[simp] theorem shape_trimmed (a : Aggregate T K) : a.trimmed.shape = a.shape := by
  cases a <;> rfl

theorem keyedById_trimmed {a : Aggregate T K} : a.trimmed.KeyedById ↔ a.KeyedById := by
  cases a <;> exact Iff.rfl

theorem eq_of_trimmed_eq {a b : Aggregate T K} (h : a.trimmed = b.trimmed)
    (hb : b.shape ≠ .sequence) : a = b := by
  have hshape : a.shape = b.shape := by rw [← shape_trimmed a, h, shape_trimmed]
  cases b with
  | sequence slots => exact absurd rfl hb
  | set items =>
    cases a with
    | set items => exact h
    | sequence slots | keyed items => cases hshape
  | keyed items =>
    cases a with
    | keyed items => exact h
    | sequence slots | set items => cases hshape

theorem eq_sequence_of_trimmed_eq {a : Aggregate T K} {slots : List (Option T.Element)}
    (h : a.trimmed = (sequence slots).trimmed) :
    ∃ base, a = sequence base ∧ dropTrailingNulls base = dropTrailingNulls slots := by
  cases a with
  | sequence base => exact ⟨base, rfl, sequence.inj h⟩
  | set items | keyed items => cases h

theorem cleared_eq (a : Aggregate T K) : a.cleared = empty a.shape := rfl

@[simp] theorem shape_deleteRow (slot : Slot K.Carrier) (e : T.Element) (a : Aggregate T K) :
    (a.deleteRow slot e).shape = a.shape := by
  cases a <;> cases slot <;> rfl

@[simp] theorem shape_writeRow (slot : Slot K.Carrier) (e : T.Element) (a : Aggregate T K) :
    (a.writeRow slot e).shape = a.shape := by
  cases a <;> cases slot <;> rfl

theorem KeyedById.deleteRow {a : Aggregate T K} (ha : a.KeyedById) (slot : Slot K.Carrier)
    (e : T.Element) : (a.deleteRow slot e).KeyedById := by
  cases a with
  | sequence slots => cases slot <;> trivial
  | set items => exact ha.of_subset (SortedMap.erase_subset _ _)
  | keyed items => cases slot <;> trivial

theorem KeyedById.writeRow {a : Aggregate T K} (ha : a.KeyedById) (slot : Slot K.Carrier)
    (e : T.Element) : (a.writeRow slot e).KeyedById := by
  cases a with
  | sequence slots => cases slot <;> trivial
  | set items => exact ha.insertIfNew e
  | keyed items => cases slot <;> trivial

theorem dropTrailingNulls_of_isSome {ε : Type} {slots : List (Option ε)}
    (h : ∀ slot ∈ slots, slot.isSome) : dropTrailingNulls slots = slots := by
  induction slots with
  | nil => rfl
  | cons slot slots ih =>
    have hslot := h slot List.mem_cons_self
    rw [dropTrailingNulls, ih fun s hs => h s (List.mem_cons_of_mem slot hs)]
    cases slots with
    | nil =>
      cases slot with
      | none => cases hslot
      | some e => rfl
    | cons next rest => rfl

theorem foldl_deleteRow_set (changes : List (ElementChange T.Element K.Carrier))
    (items : SortedMap T.Id T.Element) :
    changes.foldl (fun a d => a.deleteRow d.slot d.element) (set items : Aggregate T K) =
      set ((changes.map fun d => T.idOf d.element).foldl SortedMap.erase items) := by
  rw [List.foldl_map]
  exact List.foldl_hom set fun _ _ => rfl

theorem foldl_writeRow_set (changes : List (ElementChange T.Element K.Carrier))
    (items : SortedMap T.Id T.Element) :
    changes.foldl (fun a d => a.writeRow d.slot d.element) (set items : Aggregate T K) =
      set ((changes.map fun d => (T.idOf d.element, d.element)).foldl
        (fun m e => m.insertIfNew e.1 e.2) items) := by
  rw [List.foldl_map]
  exact List.foldl_hom set fun _ _ => rfl

theorem foldl_deleteRow_keyed (entries : List (K.Carrier × T.Element))
    (items : SortedMap K.Carrier T.Element) :
    entries.foldl (fun a e => a.deleteRow (.key e.1) e.2) (keyed items : Aggregate T K) =
      keyed ((entries.map Prod.fst).foldl SortedMap.erase items) := by
  rw [List.foldl_map]
  exact List.foldl_hom keyed fun _ _ => rfl

theorem foldl_writeRow_keyed (entries : List (K.Carrier × T.Element))
    (items : SortedMap K.Carrier T.Element) :
    entries.foldl (fun a e => a.writeRow (.key e.1) e.2) (keyed items : Aggregate T K) =
      keyed (entries.foldl (fun m e => m.insert e.1 e.2) items) :=
  List.foldl_hom keyed fun _ _ => rfl

theorem NullFree.trimmed_eq {a : Aggregate T K} (h : a.NullFree) : a.trimmed = a := by
  cases a with
  | sequence slots => exact congrArg sequence (dropTrailingNulls_of_isSome h)
  | set items => rfl
  | keyed items => rfl

/-- Only the slots that are not null count: where a slot is missing there may be a null one. -/
theorem dropTrailingNulls_congr {ε : Type} {a b : List (Option ε)}
    (h : ∀ i : Nat, a[i]?.join = b[i]?.join) : dropTrailingNulls a = dropTrailingNulls b := by
  have nulls : ∀ slots : List (Option ε), (∀ i : Nat, slots[i]?.join = none) →
      dropTrailingNulls slots = [] := by
    intro slots
    induction slots with
    | nil => exact fun _ => rfl
    | cons slot slots ih =>
      intro hnull
      have hslot : slot = none := hnull 0
      rw [dropTrailingNulls, ih fun i => hnull (i + 1), hslot]
      rfl
  induction a generalizing b with
  | nil => exact (nulls b fun i => (h i).symm).symm
  | cons x a ih =>
    cases b with
    | nil => exact nulls (x :: a) h
    | cons y b =>
      have hxy : x = y := h 0
      rw [dropTrailingNulls, dropTrailingNulls, hxy, ih fun i => h (i + 1)]

theorem join_getElem?_dropTrailingNulls {ε : Type} (slots : List (Option ε)) (i : Nat) :
    (dropTrailingNulls slots)[i]?.join = slots[i]?.join := by
  induction slots generalizing i with
  | nil => rfl
  | cons slot slots ih =>
    rw [dropTrailingNulls]
    cases hrest : dropTrailingNulls slots with
    | cons next rest =>
      rw [hrest] at ih
      cases i with
      | zero => rfl
      | succ i => exact ih i
    | nil =>
      rw [hrest] at ih
      cases slot with
      | none =>
        cases i with
        | zero => rfl
        | succ i => exact ih i
      | some e =>
        cases i with
        | zero => rfl
        | succ i => exact ih i

@[simp] theorem trimmed_trimmed (a : Aggregate T K) : a.trimmed.trimmed = a.trimmed := by
  cases a with
  | sequence slots =>
    exact congrArg sequence (dropTrailingNulls_congr (join_getElem?_dropTrailingNulls slots))
  | set items => rfl
  | keyed items => rfl

end Aggregate

namespace ChangeSet

open Aggregate

/-- The work of a change set, done on contents in the order in which it is done on rows. -/
def carryOut (c : ChangeSet T.Element K.Carrier) (a : Aggregate T K) : Aggregate T K :=
  let kept := if c.truncate then a.cleared else a
  let left := c.deletions.foldl (fun a d => a.deleteRow d.slot d.element) kept
  let updated := c.updates.foldl (fun a u => a.writeRow u.slot u.element) left
  (c.insertions.foldl (fun a d => a.writeRow d.slot d.element) updated).trimmed

theorem carryOut_induction {motive : Aggregate T K → Prop} (c : ChangeSet T.Element K.Carrier)
    {a : Aggregate T K} (ha : motive a) (hcleared : motive a.cleared)
    (hdelete : ∀ b slot e, motive b → motive (b.deleteRow slot e))
    (hwrite : ∀ b slot e, motive b → motive (b.writeRow slot e))
    (htrim : ∀ b, motive b → motive b.trimmed) : motive (c.carryOut a) := by
  have hkept : motive (if c.truncate then a.cleared else a) := by
    split
    next => exact hcleared
    next => exact ha
  have hleft := List.foldlRecOn (motive := motive) c.deletions
    (fun a d => a.deleteRow d.slot d.element) hkept fun b hb d _ => hdelete b d.slot d.element hb
  have hupdated := List.foldlRecOn (motive := motive) c.updates
    (fun a u => a.writeRow u.slot u.element) hleft fun b hb u _ => hwrite b u.slot u.element hb
  exact htrim _ (List.foldlRecOn (motive := motive) c.insertions
    (fun a d => a.writeRow d.slot d.element) hupdated fun b hb d _ => hwrite b d.slot d.element hb)

@[simp] theorem shape_carryOut (c : ChangeSet T.Element K.Carrier) (a : Aggregate T K) :
    (c.carryOut a).shape = a.shape :=
  c.carryOut_induction (motive := fun b : Aggregate T K => b.shape = a.shape) rfl
    (shape_empty a.shape) (fun b slot e hb => (shape_deleteRow slot e b).trans hb)
    (fun b slot e hb => (shape_writeRow slot e b).trans hb) fun b hb => (shape_trimmed b).trans hb

theorem keyedById_carryOut (c : ChangeSet T.Element K.Carrier) {a : Aggregate T K}
    (ha : a.KeyedById) : (c.carryOut a).KeyedById :=
  c.carryOut_induction (motive := Aggregate.KeyedById) ha (keyedById_empty a.shape)
    (fun _ slot e hb => hb.deleteRow slot e) (fun _ slot e hb => hb.writeRow slot e)
    fun _ hb => keyedById_trimmed.mpr hb

/-- Whether a change set has to find rows by their identity: in a set, and to delete a row of a
sequence without an index. -/
def FindsRows (c : ChangeSet T.Element K.Carrier) (shape : Shape) : Prop :=
  shape = .set ∨ shape = .sequence ∧ ∃ d ∈ c.deletions, ∀ i, d.slot ≠ .index i

theorem FindsRows.ne_keyed {c : ChangeSet T.Element K.Carrier} {shape : Shape}
    (h : c.FindsRows shape) : shape ≠ .keyed := by
  rcases h with rfl | ⟨rfl, _⟩
  · nofun
  · nofun

theorem carryOut_set (c : ChangeSet T.Element K.Carrier) (hupdates : c.updates = [])
    (items : SortedMap T.Id T.Element) :
    c.carryOut (.set items) =
      .set ((c.insertions.map fun d => (T.idOf d.element, d.element)).foldl
        (fun m e => m.insertIfNew e.1 e.2)
        ((c.deletions.map fun d => T.idOf d.element).foldl SortedMap.erase
          (if c.truncate then ∅ else items))) := by
  have hkept : (if c.truncate then (set items : Aggregate T K).cleared else set items) =
      set (if c.truncate then ∅ else items) := by
    split <;> rfl
  rw [carryOut, hkept, hupdates, foldl_deleteRow_set, List.foldl_nil, foldl_writeRow_set]
  rfl

theorem carryOut_keyed (c : ChangeSet T.Element K.Carrier)
    {gone added : List (K.Carrier × T.Element)} {changed : List (K.Carrier × T.Element × T.Element)}
    (hgone : c.deletions = gone.map fun e => ⟨.key e.1, e.2⟩)
    (hchanged : c.updates = changed.map fun u => ⟨.key u.1, u.2.1, u.2.2⟩)
    (hadded : c.insertions = added.map fun e => ⟨.key e.1, e.2⟩)
    (items : SortedMap K.Carrier T.Element) :
    c.carryOut (.keyed items) =
      .keyed ((changed.map (fun u => (u.1, u.2.2)) ++ added).foldl (fun m e => m.insert e.1 e.2)
        ((gone.map Prod.fst).foldl SortedMap.erase (if c.truncate then ∅ else items))) := by
  have hkept : (if c.truncate then (keyed items : Aggregate T K).cleared else keyed items) =
      keyed (if c.truncate then ∅ else items) := by
    split <;> rfl
  have hupdated := fun m => foldl_writeRow_keyed (changed.map fun u => (u.1, u.2.2)) m
  simp only [List.foldl_map] at hupdated
  rw [carryOut, hkept, hgone, hchanged, hadded]
  simp only [List.foldl_map, List.foldl_append]
  rw [foldl_deleteRow_keyed, hupdated, foldl_writeRow_keyed, List.foldl_map]
  rfl

end ChangeSet

end LazyCollections
