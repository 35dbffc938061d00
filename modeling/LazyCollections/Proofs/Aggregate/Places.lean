import LazyCollections.Aggregate.Builder
import LazyCollections.Proofs.SortedMap.Folds

/-!
# Places

A place of a collection is an index, a key or an identity. A sequence may be longer than the indices
at which it has elements, and apart from that contents are what they have at their places.
-/

namespace LazyCollections

set_option autoImplicit false

variable {T : ElementType} {K : Scalar}

/-- Where a collection has at most one element. -/
inductive Place (T : ElementType) (K : Scalar) where
  | index (i : Nat)
  | key (k : K.Carrier)
  | identity (id : T.Id)
deriving DecidableEq

namespace Place

variable {p : Place T K}

def of (slot : Slot K.Carrier) (e : T.Element) : Place T K :=
  match slot with
  | .index i => index i
  | .key k => key k
  | .unordered => identity (T.idOf e)

def slot : Place T K → Slot K.Carrier
  | index i => .index i
  | key k => .key k
  | identity _ => .unordered

def index? : Place T K → Option Nat
  | index i => some i
  | _ => none

def key? : Place T K → Option K.Carrier
  | key k => some k
  | _ => none

def identity? : Place T K → Option T.Id
  | identity id => some id
  | _ => none

theorem of_index_eq_iff {i : Nat} {e : T.Element} :
    of (.index i) e = p ↔ p.index? = some i := by
  cases p <;> simp [of, index?, eq_comm]

theorem of_key_eq_iff {k : K.Carrier} {e : T.Element} : of (.key k) e = p ↔ p.key? = some k := by
  cases p <;> simp [of, key?, eq_comm]

theorem of_unordered_eq_iff {e : T.Element} :
    of .unordered e = p ↔ p.identity? = some (T.idOf e) := by
  cases p <;> simp [of, identity?, eq_comm]

end Place

def Aggregate.at? : Aggregate T K → Place T K → Option T.Element
  | sequence slots, p => p.index?.bind fun i => slots[i]?.join
  | set items, p => p.identity?.bind items.get?
  | keyed items, p => p.key?.bind items.get?

@[simp] theorem Aggregate.at?_index (slots : List (Option T.Element)) (i : Nat) :
    (sequence slots : Aggregate T K).at? (.index i) = slots[i]?.join := rfl

@[simp] theorem Aggregate.at?_identity (items : SortedMap T.Id T.Element) (id : T.Id) :
    (set items : Aggregate T K).at? (.identity id) = items.get? id := rfl

@[simp] theorem Aggregate.at?_key (items : SortedMap K.Carrier T.Element) (k : K.Carrier) :
    (keyed items : Aggregate T K).at? (.key k) = items.get? k := rfl

theorem Aggregate.at?_cleared (a : Aggregate T K) (p : Place T K) : a.cleared.at? p = none := by
  cases a <;> cases p <;> rfl

theorem Aggregate.size_cleared (a : Aggregate T K) : a.cleared.size = 0 := by
  cases a <;> rfl

theorem Aggregate.ext_at? {a b : Aggregate T K} (hshape : a.shape = b.shape)
    (hsize : a.shape = .sequence → a.size = b.size) (h : ∀ p, a.at? p = b.at? p) : a = b := by
  cases a with
  | sequence slots =>
    cases b with
    | sequence others =>
      have hlength : slots.length = others.length := hsize rfl
      refine congrArg sequence (List.ext_getElem hlength fun i hi hj => ?_)
      have hslot : slots[i]?.join = others[i]?.join := h (.index i)
      simpa [List.getElem?_eq_getElem hi, List.getElem?_eq_getElem hj] using hslot
    | set items | keyed items => cases hshape
  | set items =>
    cases b with
    | set others => exact congrArg set (SortedMap.ext_get? fun id => h (.identity id))
    | sequence slots | keyed others => cases hshape
  | keyed items =>
    cases b with
    | keyed others => exact congrArg keyed (SortedMap.ext_get? fun k => h (.key k))
    | sequence slots | set others => cases hshape

section Slots

variable {ε : Type}

theorem join_getElem?_set_none (slots : List (Option ε)) (i j : Nat) :
    (slots.set i none)[j]?.join = if i = j then none else slots[j]?.join := by
  rw [List.getElem?_set]
  split
  · split <;> rfl
  · rfl

theorem join_getElem?_writeSlot (slots : List (Option ε)) (i j : Nat) (e : Option ε) :
    (Builder.writeSlot slots i e)[j]?.join = if i = j then e else slots[j]?.join := by
  rw [Builder.writeSlot, List.getElem?_set]
  split
  · have hi : i < (slots ++ List.replicate (i + 1 - slots.length) none).length := by
      rw [List.length_append, List.length_replicate]
      omega
    rw [if_pos hi]
    rfl
  · rw [List.getElem?_append]
    split
    next => rfl
    next hj =>
      rw [List.getElem?_replicate, List.getElem?_eq_none (Nat.le_of_not_lt hj)]
      split <;> rfl

theorem length_writeSlot (slots : List (Option ε)) (i : Nat) (e : Option ε) :
    (Builder.writeSlot slots i e).length = max slots.length (i + 1) := by
  rw [Builder.writeSlot, List.length_set, List.length_append, List.length_replicate]
  omega

end Slots

namespace Aggregate

variable {p : Place T K}

theorem at?_writeSlot (slots : List (Option T.Element)) (i : Nat) (e : Option T.Element) :
    (sequence (Builder.writeSlot slots i e) : Aggregate T K).at? p =
      if .index i = p then e else (sequence slots).at? p := by
  cases p with
  | index j => simpa using join_getElem?_writeSlot slots i j e
  | key k => simp [at?, Place.index?]
  | identity id => simp [at?, Place.index?]

theorem at?_insert_set (items : SortedMap T.Id T.Element) (id : T.Id) (e : T.Element) :
    (set (items.insert id e) : Aggregate T K).at? p =
      if .identity id = p then some e else (set items).at? p := by
  cases p with
  | identity j => simpa using SortedMap.get?_insert items id j e
  | index i => simp [at?, Place.identity?]
  | key k => simp [at?, Place.identity?]

theorem at?_insert_keyed (items : SortedMap K.Carrier T.Element) (k : K.Carrier) (e : T.Element) :
    (keyed (items.insert k e) : Aggregate T K).at? p =
      if .key k = p then some e else (keyed items).at? p := by
  cases p with
  | key j => simpa using SortedMap.get?_insert items k j e
  | index i => simp [at?, Place.key?]
  | identity id => simp [at?, Place.key?]

end Aggregate

end LazyCollections
