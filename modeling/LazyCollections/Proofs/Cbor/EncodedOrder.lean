import Mathlib.Data.List.Perm.Basic
import LazyCollections.Proofs.Cbor.Items
import LazyCollections.Proofs.Except
import LazyCollections.Proofs.Value.Rearranged

/-!
# The order in which maps are written

The entries of a map are written in the order of their encoded keys, which is another order than the
canonical one. Both orders look at the whole key, so they agree on which keys are equal: a value can
be encoded exactly if no map in it, also inside keys, holds one key twice in canonical form, and
the bytes of two values are equal exactly if their canonical forms are.
-/

namespace LazyCollections

set_option autoImplicit false

open Cbor

namespace Cbor

instance : Std.TransCmp compareEncoded :=
  inferInstanceAs (Std.TransCmp (compareLex (compareOn List.length) compare))

instance : Std.LawfulEqCmp compareEncoded where
  eq_of_compare h := Std.LawfulEqOrd.eq_of_compare (Ordering.then_eq_eq.mp h).2

end Cbor

namespace Value

def inEncodedOrder (entries : List (Value × Value)) : List (Value × Value) :=
  (StableSort.sortBy (StableSort.keyOrder compareEncoded Prod.fst)
    (entries.map fun e => (e.1.write, e))).map Prod.snd

theorem inEncodedOrder_perm (es : List (Value × Value)) : (inEncodedOrder es).Perm es := by
  have hvalues : (es.map fun e => (e.1.write, e)).map Prod.snd = es := by
    rw [List.map_map, Function.comp_def, List.map_id']
  rw [inEncodedOrder, StableSort.sortBy_eq_insertionSort]
  exact ((List.perm_insertionSort _ _).map Prod.snd).trans (.of_eq hvalues)

theorem map_fst_keyed (es : List (Value × Value)) :
    (es.map fun e => (e.1.write, e)).map Prod.fst = es.map fun e => e.1.write := by
  rw [List.map_map, Function.comp_def]

theorem inEncodedOrder_eq_of_perm {es fs : List (Value × Value)} (h : es.Perm fs)
    (hdistinct : (es.map fun e => e.1.write).Nodup) : inEncodedOrder es = inEncodedOrder fs := by
  rw [← map_fst_keyed] at hdistinct
  rw [inEncodedOrder, inEncodedOrder, StableSort.sortBy_eq_insertionSort,
    StableSort.sortBy_eq_insertionSort,
    StableSort.insertionSort_keyOrder_eq_of_perm (h.map _) hdistinct]

theorem encodedOrder_eq_ok {es : List (Value × Value)} {u : Value} :
    encodedOrder es = .ok u ↔
      (es.map fun e => e.1.write).Nodup ∧ u = map (inEncodedOrder es) := by
  rw [← map_fst_keyed, ← StableSort.repeated?_insertionSort_eq_none_iff compareEncoded Prod.fst,
    ← StableSort.sortBy_eq_insertionSort]
  simp only [encodedOrder]
  split
  next hsome => exact ⟨nofun, fun h => nomatch hsome.symm.trans h.1⟩
  next hnone =>
    exact ⟨fun h => ⟨hnone, (Except.ok.inj h).symm⟩, fun h => congrArg Except.ok h.2.symm⟩

theorem encodedOrder_eq_error {es : List (Value × Value)} {error : CodecError}
    (h : encodedOrder es = .error error) : ∃ key, error = .duplicateKey key := by
  simp only [encodedOrder] at h
  split at h
  next => exact ⟨_, (Except.error.inj h).symm⟩
  next => cases h

theorem entriesToEncodedOrder_eq_ok {es us : List (Value × Value)} :
    entriesToEncodedOrder es = .ok us ↔
      List.Forall₂ (fun e u => e.1.toEncodedOrder = .ok u.1 ∧ e.2.toEncodedOrder = .ok u.2)
        es us := by
  induction es generalizing us with
  | nil =>
    rw [List.forall₂_nil_left_iff]
    exact ⟨fun h => (Except.ok.inj h).symm, fun h => congrArg Except.ok h.symm⟩
  | cons e es ih =>
    rw [entriesToEncodedOrder, bind_eq_ok]
    constructor
    · rintro ⟨k, hk, h⟩
      obtain ⟨v, hv, h⟩ := bind_eq_ok.mp h
      obtain ⟨rest, hrest, h⟩ := bind_eq_ok.mp h
      obtain rfl := Except.ok.inj h
      exact .cons ⟨hk, hv⟩ (ih.mp hrest)
    · intro h
      cases h with
      | @cons _ u _ rest he hrest =>
        exact ⟨u.1, he.1, bind_eq_ok.mpr ⟨u.2, he.2, bind_eq_ok.mpr ⟨rest, ih.mpr hrest, rfl⟩⟩⟩

mutual

theorem toEncodedOrder_eq_error {v : Value} {error : CodecError}
    (h : v.toEncodedOrder = .error error) : ∃ key, error = .duplicateKey key := by
  cases v with
  | null => cases h
  | bool b => cases h
  | integer n => cases h
  | bytes bs => cases h
  | text s => cases h
  | array items =>
    rw [toEncodedOrder] at h
    rcases bind_eq_error.mp h with h | ⟨us, -, h⟩
    · exact itemsToEncodedOrder_eq_error h
    · cases h
  | map entries =>
    rw [toEncodedOrder] at h
    rcases bind_eq_error.mp h with h | ⟨us, -, h⟩
    · exact entriesToEncodedOrder_eq_error h
    · exact encodedOrder_eq_error h

theorem itemsToEncodedOrder_eq_error {vs : List Value} {error : CodecError}
    (h : itemsToEncodedOrder vs = .error error) : ∃ key, error = .duplicateKey key := by
  cases vs with
  | nil => cases h
  | cons v vs =>
    rw [itemsToEncodedOrder] at h
    rcases bind_eq_error.mp h with h | ⟨u, -, h⟩
    · exact toEncodedOrder_eq_error h
    · rcases bind_eq_error.mp h with h | ⟨us, -, h⟩
      · exact itemsToEncodedOrder_eq_error h
      · cases h

theorem entriesToEncodedOrder_eq_error {es : List (Value × Value)} {error : CodecError}
    (h : entriesToEncodedOrder es = .error error) : ∃ key, error = .duplicateKey key := by
  cases es with
  | nil => cases h
  | cons e es =>
    obtain ⟨k, v⟩ := e
    rw [entriesToEncodedOrder] at h
    rcases bind_eq_error.mp h with h | ⟨l, -, h⟩
    · exact toEncodedOrder_eq_error h
    · rcases bind_eq_error.mp h with h | ⟨w, -, h⟩
      · exact toEncodedOrder_eq_error h
      · rcases bind_eq_error.mp h with h | ⟨us, -, h⟩
        · exact entriesToEncodedOrder_eq_error h
        · cases h

end

mutual

theorem rearranged_of_toEncodedOrder {v u : Value} (h : v.toEncodedOrder = .ok u) :
    v.Rearranged u := by
  cases v with
  | null => exact Except.ok.inj h ▸ .same _
  | bool b => exact Except.ok.inj h ▸ .same _
  | integer n => exact Except.ok.inj h ▸ .same _
  | bytes bs => exact Except.ok.inj h ▸ .same _
  | text s => exact Except.ok.inj h ▸ .same _
  | array items =>
    rw [toEncodedOrder] at h
    obtain ⟨us, hitems, h⟩ := bind_eq_ok.mp h
    exact Except.ok.inj h ▸ .array (rearrangedItems_of_toEncodedOrder hitems)
  | map entries =>
    rw [toEncodedOrder] at h
    obtain ⟨us, hentries, h⟩ := bind_eq_ok.mp h
    obtain ⟨-, rfl⟩ := encodedOrder_eq_ok.mp h
    exact .map (rearrangedEntries_of_toEncodedOrder hentries) (inEncodedOrder_perm us).symm

theorem rearrangedItems_of_toEncodedOrder {vs us : List Value}
    (h : itemsToEncodedOrder vs = .ok us) : RearrangedItems vs us := by
  cases vs with
  | nil => exact Except.ok.inj h ▸ .nil
  | cons v vs =>
    rw [itemsToEncodedOrder] at h
    obtain ⟨u, hv, h⟩ := bind_eq_ok.mp h
    obtain ⟨us, hvs, h⟩ := bind_eq_ok.mp h
    exact Except.ok.inj h ▸
      .cons (rearranged_of_toEncodedOrder hv) (rearrangedItems_of_toEncodedOrder hvs)

theorem rearrangedEntries_of_toEncodedOrder {es us : List (Value × Value)}
    (h : entriesToEncodedOrder es = .ok us) : RearrangedEntries es us := by
  cases es with
  | nil => exact Except.ok.inj h ▸ .nil
  | cons e es =>
    obtain ⟨k, v⟩ := e
    rw [entriesToEncodedOrder] at h
    obtain ⟨l, hk, h⟩ := bind_eq_ok.mp h
    obtain ⟨w, hv, h⟩ := bind_eq_ok.mp h
    obtain ⟨us, hes, h⟩ := bind_eq_ok.mp h
    exact Except.ok.inj h ▸ .cons (rearranged_of_toEncodedOrder hk)
      (rearranged_of_toEncodedOrder hv) (rearrangedEntries_of_toEncodedOrder hes)

end

theorem exists_entriesToEncodedOrder_of_perm {es fs us : List (Value × Value)}
    (order : es.Perm fs) (h : entriesToEncodedOrder es = .ok us) :
    ∃ ws, entriesToEncodedOrder fs = .ok ws ∧ us.Perm ws := by
  obtain ⟨ws, hws, hperm⟩ := List.perm_comp_forall₂ order.symm (entriesToEncodedOrder_eq_ok.mp h)
  exact ⟨ws, entriesToEncodedOrder_eq_ok.mpr hws, hperm.symm⟩

mutual

/-- If a value can be encoded, its rearrangements can, and they are written in one order. -/
theorem Rearranged.toEncodedOrder_eq_ok {v w u : Value} :
    v.Rearranged w → v.toEncodedOrder = .ok u → w.toEncodedOrder = .ok u
  | .same _, h => h
  | .array items, h => by
    rw [toEncodedOrder] at h ⊢
    obtain ⟨us, hitems, h⟩ := bind_eq_ok.mp h
    exact bind_eq_ok.mpr ⟨us, items.toEncodedOrder_eq_ok hitems, h⟩
  | .map entries order, h => by
    rw [toEncodedOrder] at h ⊢
    obtain ⟨us, hentries, h⟩ := bind_eq_ok.mp h
    obtain ⟨ws, hws, hperm⟩ :=
      exists_entriesToEncodedOrder_of_perm order (entries.toEncodedOrder_eq_ok hentries)
    obtain ⟨hdistinct, rfl⟩ := encodedOrder_eq_ok.mp h
    have hdistinct' := (hperm.map fun e => e.1.write).nodup_iff.mp hdistinct
    refine bind_eq_ok.mpr ⟨ws, hws, encodedOrder_eq_ok.mpr ⟨hdistinct', ?_⟩⟩
    rw [inEncodedOrder_eq_of_perm hperm hdistinct]

theorem RearrangedItems.toEncodedOrder_eq_ok {vs ws us : List Value} :
    RearrangedItems vs ws → itemsToEncodedOrder vs = .ok us → itemsToEncodedOrder ws = .ok us
  | .nil, h => h
  | .cons head tail, h => by
    rw [itemsToEncodedOrder] at h ⊢
    obtain ⟨u, hv, h⟩ := bind_eq_ok.mp h
    obtain ⟨us, hvs, h⟩ := bind_eq_ok.mp h
    exact bind_eq_ok.mpr ⟨u, head.toEncodedOrder_eq_ok hv,
      bind_eq_ok.mpr ⟨us, tail.toEncodedOrder_eq_ok hvs, h⟩⟩

theorem RearrangedEntries.toEncodedOrder_eq_ok {es fs us : List (Value × Value)} :
    RearrangedEntries es fs → entriesToEncodedOrder es = .ok us →
      entriesToEncodedOrder fs = .ok us
  | .nil, h => h
  | .cons key value tail, h => by
    rw [entriesToEncodedOrder] at h ⊢
    obtain ⟨l, hk, h⟩ := bind_eq_ok.mp h
    obtain ⟨w, hv, h⟩ := bind_eq_ok.mp h
    obtain ⟨us, hes, h⟩ := bind_eq_ok.mp h
    exact bind_eq_ok.mpr ⟨l, key.toEncodedOrder_eq_ok hk,
      bind_eq_ok.mpr ⟨w, value.toEncodedOrder_eq_ok hv,
        bind_eq_ok.mpr ⟨us, tail.toEncodedOrder_eq_ok hes, h⟩⟩⟩

end

/-- Each key has one encoding, so two entries that are written under distinct keys have them. -/
theorem nodup_keys_of_nodup_write {es us : List (Value × Value)}
    (h : entriesToEncodedOrder es = .ok us) (hwrite : (us.map fun u => u.1.write).Nodup) :
    (es.map Prod.fst).Nodup := by
  have hkeys : (es.map Prod.fst).map toEncodedOrder = (us.map Prod.fst).map .ok := by
    rw [List.map_map, List.map_map]
    refine List.forall₂_eq_eq_eq ▸ ?_
    rw [List.forall₂_map_left_iff, List.forall₂_map_right_iff]
    exact (entriesToEncodedOrder_eq_ok.mp h).imp fun _ _ h => h.1
  have hus : (us.map Prod.fst).Nodup :=
    List.Nodup.of_map write (by rwa [List.map_map])
  refine List.Nodup.of_map toEncodedOrder ?_
  rw [hkeys]
  exact hus.map fun _ _ h => Except.ok.inj h

mutual

theorem distinctKeys_of_toEncodedOrder {v u : Value} (h : v.toEncodedOrder = .ok u) :
    v.DistinctKeys := by
  cases v with
  | null => trivial
  | bool b => trivial
  | integer n => trivial
  | bytes bs => trivial
  | text s => trivial
  | array items =>
    rw [toEncodedOrder] at h
    obtain ⟨us, hitems, -⟩ := bind_eq_ok.mp h
    exact distinctKeysInItems_of_toEncodedOrder hitems
  | map entries =>
    rw [toEncodedOrder] at h
    obtain ⟨us, hentries, h⟩ := bind_eq_ok.mp h
    obtain ⟨hwrite, -⟩ := encodedOrder_eq_ok.mp h
    have hcanonical := (rearrangedEntries_canonical entries).toEncodedOrder_eq_ok hentries
    exact ⟨nodup_keys_of_nodup_write hcanonical hwrite,
      distinctKeysInEntries_of_toEncodedOrder hentries⟩

theorem distinctKeysInItems_of_toEncodedOrder {vs us : List Value}
    (h : itemsToEncodedOrder vs = .ok us) : DistinctKeysInItems vs := by
  cases vs with
  | nil => trivial
  | cons v vs =>
    rw [itemsToEncodedOrder] at h
    obtain ⟨u, hv, h⟩ := bind_eq_ok.mp h
    obtain ⟨us, hvs, -⟩ := bind_eq_ok.mp h
    exact ⟨distinctKeys_of_toEncodedOrder hv, distinctKeysInItems_of_toEncodedOrder hvs⟩

theorem distinctKeysInEntries_of_toEncodedOrder {es us : List (Value × Value)}
    (h : entriesToEncodedOrder es = .ok us) : DistinctKeysInEntries es := by
  cases es with
  | nil => trivial
  | cons e es =>
    obtain ⟨k, v⟩ := e
    rw [entriesToEncodedOrder] at h
    obtain ⟨l, hk, h⟩ := bind_eq_ok.mp h
    obtain ⟨w, hv, h⟩ := bind_eq_ok.mp h
    obtain ⟨us, hes, -⟩ := bind_eq_ok.mp h
    exact ⟨distinctKeys_of_toEncodedOrder hk, distinctKeys_of_toEncodedOrder hv,
      distinctKeysInEntries_of_toEncodedOrder hes⟩

end

theorem canonical_eq_of_toEncodedOrder {v u : Value} (h : v.toEncodedOrder = .ok u) :
    u.canonical = v.canonical :=
  (rearranged_of_toEncodedOrder h).canonical_eq.2 (distinctKeys_of_toEncodedOrder h)

theorem addressableEntries_iff {es : List (Value × Value)} :
    AddressableEntries es ↔ ∀ e ∈ es, e.1.Addressable ∧ e.2.Addressable := by
  induction es with
  | nil => simp [AddressableEntries]
  | cons e es ih => simp [AddressableEntries, ih, and_assoc]

mutual

theorem Rearranged.addressable_iff {v w : Value} :
    v.Rearranged w → (v.Addressable ↔ w.Addressable)
  | .same _ => Iff.rfl
  | .array items => by rw [Addressable, Addressable, items.length_eq, items.addressable_iff]
  | .map entries order => by
    rw [Addressable, Addressable, ← order.length_eq, entries.length_eq, entries.addressable_iff,
      addressableEntries_iff, addressableEntries_iff]
    simp only [order.mem_iff]

theorem RearrangedItems.addressable_iff {vs ws : List Value} :
    RearrangedItems vs ws → (AddressableItems vs ↔ AddressableItems ws)
  | .nil => Iff.rfl
  | .cons head tail => and_congr head.addressable_iff tail.addressable_iff

theorem RearrangedEntries.addressable_iff {es fs : List (Value × Value)} :
    RearrangedEntries es fs → (AddressableEntries es ↔ AddressableEntries fs)
  | .nil => Iff.rfl
  | .cons key value tail =>
    and_congr key.addressable_iff (and_congr value.addressable_iff tail.addressable_iff)

end

theorem nodup_write_of_nodup_canonical {es : List (Value × Value)} (hsize : AddressableEntries es)
    (h : ((canonicalEntries es).map Prod.fst).Nodup) : (es.map fun e => e.1.write).Nodup := by
  have hkeys : ((es.map Prod.fst).map canonical).Nodup := by
    rw [canonicalEntries_eq_map, List.map_map] at h
    rw [List.map_map]
    exact h
  have hwritten : (es.map fun e => e.1.write) = (es.map Prod.fst).map write := by
    rw [List.map_map, Function.comp_def]
  rw [hwritten]
  refine List.Nodup.map_on ?_ (List.Nodup.of_map _ hkeys)
  intro k hk l hl hwrite
  obtain ⟨e, he, rfl⟩ := List.mem_map.mp hk
  obtain ⟨f, hf, rfl⟩ := List.mem_map.mp hl
  rw [addressableEntries_iff] at hsize
  exact write_injective (hsize e he).1 (hsize f hf).1 hwrite

mutual

theorem exists_toEncodedOrder {v : Value} (hsize : v.Addressable) (h : v.DistinctKeys) :
    ∃ u, v.toEncodedOrder = .ok u := by
  cases v with
  | null => exact ⟨_, rfl⟩
  | bool b => exact ⟨_, rfl⟩
  | integer n => exact ⟨_, rfl⟩
  | bytes bs => exact ⟨_, rfl⟩
  | text s => exact ⟨_, rfl⟩
  | array items =>
    obtain ⟨us, hitems⟩ := exists_itemsToEncodedOrder hsize.2 h
    exact ⟨array us, bind_eq_ok.mpr ⟨us, hitems, rfl⟩⟩
  | map entries =>
    obtain ⟨us, hentries⟩ := exists_entriesToEncodedOrder hsize.2 h.2
    have hus := rearrangedEntries_of_toEncodedOrder hentries
    have hkeys : ((canonicalEntries us).map Prod.fst).Nodup := by
      rw [hus.canonical_eq.2 h.2]
      exact h.1
    have hwrite := nodup_write_of_nodup_canonical (hus.addressable_iff.mp hsize.2) hkeys
    exact ⟨map (inEncodedOrder us),
      bind_eq_ok.mpr ⟨us, hentries, encodedOrder_eq_ok.mpr ⟨hwrite, rfl⟩⟩⟩

theorem exists_itemsToEncodedOrder {vs : List Value} (hsize : AddressableItems vs)
    (h : DistinctKeysInItems vs) : ∃ us, itemsToEncodedOrder vs = .ok us := by
  cases vs with
  | nil => exact ⟨[], rfl⟩
  | cons v vs =>
    obtain ⟨u, hv⟩ := exists_toEncodedOrder hsize.1 h.1
    obtain ⟨us, hvs⟩ := exists_itemsToEncodedOrder hsize.2 h.2
    exact ⟨u :: us, bind_eq_ok.mpr ⟨u, hv, bind_eq_ok.mpr ⟨us, hvs, rfl⟩⟩⟩

theorem exists_entriesToEncodedOrder {es : List (Value × Value)} (hsize : AddressableEntries es)
    (h : DistinctKeysInEntries es) : ∃ us, entriesToEncodedOrder es = .ok us := by
  cases es with
  | nil => exact ⟨[], rfl⟩
  | cons e es =>
    obtain ⟨k, v⟩ := e
    obtain ⟨l, hk⟩ := exists_toEncodedOrder hsize.1 h.1
    obtain ⟨w, hv⟩ := exists_toEncodedOrder hsize.2.1 h.2.1
    obtain ⟨us, hes⟩ := exists_entriesToEncodedOrder hsize.2.2 h.2.2
    exact ⟨(l, w) :: us, bind_eq_ok.mpr ⟨l, hk, bind_eq_ok.mpr ⟨w, hv,
      bind_eq_ok.mpr ⟨us, hes, rfl⟩⟩⟩⟩

end

theorem encode_eq_ok {v : Value} {bytes : List UInt8} :
    v.encode = .ok bytes ↔ ∃ u, v.toEncodedOrder = .ok u ∧ u.write = bytes := by
  rw [encode, bind_eq_ok]
  constructor
  · rintro ⟨u, hu, h⟩
    exact ⟨u, hu, Except.ok.inj h⟩
  · rintro ⟨u, hu, h⟩
    exact ⟨u, hu, congrArg Except.ok h⟩

theorem encode_eq_error {v : Value} {error : CodecError} (h : v.encode = .error error) :
    ∃ key, error = .duplicateKey key := by
  rcases bind_eq_error.mp h with h | ⟨u, -, h⟩
  · exact toEncodedOrder_eq_error h
  · cases h

theorem exists_encode_iff {v : Value} (hsize : v.Addressable) :
    (∃ bytes, v.encode = .ok bytes) ↔ v.DistinctKeys := by
  constructor
  · rintro ⟨bytes, h⟩
    obtain ⟨u, hu, -⟩ := encode_eq_ok.mp h
    exact distinctKeys_of_toEncodedOrder hu
  · intro h
    obtain ⟨u, hu⟩ := exists_toEncodedOrder hsize h
    exact ⟨u.write, encode_eq_ok.mpr ⟨u, hu, rfl⟩⟩

theorem encode_fails_iff {v : Value} (hsize : v.Addressable) :
    (∃ error, v.encode = .error error) ↔ ¬v.DistinctKeys := by
  rw [← exists_encode_iff hsize]
  cases v.encode with
  | error error => simp
  | ok bytes => simp

theorem Rearranged.encode_eq_ok {v w : Value} {bytes : List UInt8} (h : v.Rearranged w)
    (hv : v.encode = .ok bytes) : w.encode = .ok bytes := by
  obtain ⟨u, hu, hbytes⟩ := Value.encode_eq_ok.mp hv
  exact Value.encode_eq_ok.mpr ⟨u, h.toEncodedOrder_eq_ok hu, hbytes⟩

theorem Rearranged.toOption_encode_eq {v w : Value} (hsize : v.Addressable) (h : v.Rearranged w) :
    v.encode.toOption = w.encode.toOption := by
  by_cases hdistinct : v.DistinctKeys
  · obtain ⟨bytes, hv⟩ := (exists_encode_iff hsize).mpr hdistinct
    rw [hv, h.encode_eq_ok hv]
  · obtain ⟨_, hv⟩ := (encode_fails_iff hsize).mpr hdistinct
    obtain ⟨_, hw⟩ :=
      (encode_fails_iff (h.addressable_iff.mp hsize)).mpr fun hw => hdistinct (h.canonical_eq.1.mpr hw)
    rw [hv, hw]
    rfl

theorem bytes_eq_iff {v w : Value} {x y : List UInt8} (hsizeV : v.Addressable)
    (hsizeW : w.Addressable) (hv : v.encode = .ok x) (hw : w.encode = .ok y) :
    x = y ↔ v.canonical = w.canonical := by
  obtain ⟨t, ht, rfl⟩ := encode_eq_ok.mp hv
  obtain ⟨u, hu, rfl⟩ := encode_eq_ok.mp hw
  constructor
  · intro h
    have htu : t = u := write_injective ((rearranged_of_toEncodedOrder ht).addressable_iff.mp hsizeV)
      ((rearranged_of_toEncodedOrder hu).addressable_iff.mp hsizeW) h
    rw [← canonical_eq_of_toEncodedOrder ht, ← canonical_eq_of_toEncodedOrder hu, htu]
  · intro h
    -- Both are written like their common canonical form.
    have hv := (rearranged_canonical v).encode_eq_ok hv
    have hw := (rearranged_canonical w).encode_eq_ok hw
    rw [h, hw] at hv
    exact (Except.ok.inj hv).symm

/-- The bytes stand for the canonical form. Only a repeated key is refused, and the order in which
maps were put together, at any depth, changes neither the bytes nor whether there are any. -/
theorem encode_identifies (v w : Value) (hv : v.Addressable) (hw : w.Addressable) :
    ((∃ error, v.encode = .error error) ↔ ¬v.DistinctKeys) ∧
      (∀ error, v.encode = .error error → ∃ key, error = .duplicateKey key) ∧
      (∀ x y, v.encode = .ok x → w.encode = .ok y → (x = y ↔ v.canonical = w.canonical)) ∧
      (v.Rearranged w → v.encode.toOption = w.encode.toOption) := by
  refine ⟨encode_fails_iff hv, ?_, ?_, ?_⟩
  · intro error h
    exact encode_eq_error h
  · intro x y hx hy
    exact bytes_eq_iff hv hw hx hy
  · intro h
    exact h.toOption_encode_eq hv

/-- A map in neither order, with a map in neither order as a key. -/
def unordered : Value :=
  map [(map [(text "b", integer 1), (text "a", integer 2)], null), (bool true, integer 500),
    (integer (-1), array [bytes [1, 2]])]

def unorderedAgain : Value :=
  map [(bool true, integer 500), (map [(text "a", integer 2), (text "b", integer 1)], null),
    (integer (-1), array [bytes [1, 2]])]

def unorderedBytes : List UInt8 :=
  [0xa3, 0x20, 0x81, 0x42, 1, 2, 0xf5, 0x19, 1, 0xf4, 0xa2, 0x61, 0x61, 2, 0x61, 0x62, 1, 0xf6]

theorem addressable_unordered : unordered.Addressable :=
  addressable_of_length_write (by decide +kernel)

theorem encode_unordered : unordered.encode = .ok unorderedBytes := rfl

theorem rearranged_unordered : unordered.Rearranged unorderedAgain := by
  have hinner : (map [(text "b", integer 1), (text "a", integer 2)]).Rearranged
      (map [(text "a", integer 2), (text "b", integer 1)]) :=
    .map (.cons (.same _) (.same _) (.cons (.same _) (.same _) .nil)) (.swap _ _ _)
  exact .map (.cons hinner (.same _)
    (.cons (.same _) (.same _) (.cons (.same _) (.same _) .nil))) (.swap _ _ _)

theorem encode_identifies_unordered :
    unordered.Addressable ∧ unorderedAgain.Addressable ∧
      ((∃ error, unordered.encode = .error error) ↔ ¬unordered.DistinctKeys) ∧
      unordered.encode = .ok unorderedBytes ∧
      unordered.encode.toOption = unorderedAgain.encode.toOption ∧
      unordered.canonical = unorderedAgain.canonical := by
  have hsize : unorderedAgain.Addressable := addressable_of_length_write (by decide +kernel)
  obtain ⟨hfails, -, hsame, hrearranged⟩ :=
    encode_identifies unordered unorderedAgain addressable_unordered hsize
  have hagain : unorderedAgain.encode = .ok unorderedBytes := rfl
  exact ⟨addressable_unordered, hsize, hfails, encode_unordered,
    hrearranged rearranged_unordered, (hsame _ _ encode_unordered hagain).mp rfl⟩

/-- A key that comes twice is refused, also in another order. -/
example : (map [(map [(text "b", null), (text "a", null)], null),
    (map [(text "a", null), (text "b", null)], null)]).encode =
      .error (.duplicateKey "Map([(Text(\"a\"), Null), (Text(\"b\"), Null)])") := rfl

end Value

end LazyCollections
