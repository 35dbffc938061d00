import LazyCollections.Cbor.Decoder
import LazyCollections.Proofs.Cbor.EncodedOrder

/-!
# Values that are decoded

Encoding only reorders the entries of maps, and decoding puts them into canonical order. So a value
that was encoded and is decoded again comes out in its canonical form, which has the same encoding.
Decoding refuses what was encoded only if it is nested too deep.
-/

namespace LazyCollections

set_option autoImplicit false

open Cbor

namespace Value

theorem ofInteger_toInt (n : Int64) : ofInteger n.toInt = .ok (integer n) := by
  have hlow := Int64.minValue_le_toInt n
  have hhigh := Int64.toInt_le n
  have hmin : Int64.minValue.toInt = -2 ^ 63 := rfl
  have hmax : Int64.maxValue.toInt = 2 ^ 63 - 1 := rfl
  rw [ofInteger, if_pos (by omega), Int64.ofInt_toInt]

theorem ofDistinctEntries_of_nodup {es : List (Value × Value)} (h : (es.map Prod.fst).Nodup) :
    ofDistinctEntries es = .ok (map (sortEntries es)) := by
  have hrepeated := repeated?_sortEntries_eq_none_iff.mpr h
  simp only [ofDistinctEntries, hrepeated]

mutual

theorem ofItem_toItem {v : Value} (h : v.DistinctKeys) : ofItem v.toItem = .ok v.canonical := by
  cases v with
  | null => rfl
  | bool b => rfl
  | integer n => exact ofInteger_toInt n
  | bytes bs => rfl
  | text s => rfl
  | array items =>
    rw [toItem, ofItem]
    exact bind_eq_ok.mpr ⟨_, ofItems_toItems h, rfl⟩
  | map entries =>
    rw [toItem, ofItem]
    exact bind_eq_ok.mpr ⟨_, ofEntryItems_toEntryItems h.2, ofDistinctEntries_of_nodup h.1⟩

theorem ofItems_toItems {vs : List Value} (h : DistinctKeysInItems vs) :
    ofItems (toItems vs) = .ok (canonicalItems vs) := by
  cases vs with
  | nil => rfl
  | cons v vs =>
    rw [toItems, ofItems]
    exact bind_eq_ok.mpr ⟨_, ofItem_toItem h.1, bind_eq_ok.mpr ⟨_, ofItems_toItems h.2, rfl⟩⟩

theorem ofEntryItems_toEntryItems {es : List (Value × Value)} (h : DistinctKeysInEntries es) :
    ofEntryItems (toEntryItems es) = .ok (canonicalEntries es) := by
  cases es with
  | nil => rfl
  | cons e es =>
    obtain ⟨k, v⟩ := e
    rw [toEntryItems, ofEntryItems]
    exact bind_eq_ok.mpr ⟨_, ofItem_toItem h.1, bind_eq_ok.mpr ⟨_, ofItem_toItem h.2.1,
      bind_eq_ok.mpr ⟨_, ofEntryItems_toEntryItems h.2.2, rfl⟩⟩⟩

end

theorem decode_of_encode {v : Value} {bytes : List UInt8} (hencode : v.encode = .ok bytes)
    (hsize : v.Addressable) :
    decode bytes =
      if v.depth ≤ depthLimit then .ok v.canonical
      else .error (.decodingFailed "malformed item") := by
  obtain ⟨u, hu, rfl⟩ := encode_eq_ok.mp hencode
  have hvu := rearranged_of_toEncodedOrder hu
  have hdistinct : u.DistinctKeys :=
    hvu.canonical_eq.1.mp (distinctKeys_of_toEncodedOrder hu)
  have hread := readItem_write depthLimit u (hvu.addressable_iff.mp hsize) []
  rw [List.append_nil, hvu.depth_eq] at hread
  rw [decode, hread]
  by_cases hdepth : v.depth ≤ depthLimit
  · simp only [if_pos hdepth]
    rw [ofItem_toItem hdistinct, canonical_eq_of_toEncodedOrder hu]
  · simp only [if_neg hdepth]

theorem addressable_of_encode {v : Value} {bytes : List UInt8} (h : v.encode = .ok bytes)
    (hsize : bytes.length < UInt64.size) : v.Addressable := by
  obtain ⟨u, hu, rfl⟩ := encode_eq_ok.mp h
  exact (rearranged_of_toEncodedOrder hu).addressable_iff.mpr (addressable_of_length_write hsize)

theorem eq_canonical_of_decode {v w : Value} {bytes : List UInt8} (hencode : v.encode = .ok bytes)
    (hsize : bytes.length < UInt64.size) (hdecode : decode bytes = .ok w) : w = v.canonical := by
  rw [decode_of_encode hencode (addressable_of_encode hencode hsize)] at hdecode
  split at hdecode
  next => exact (Except.ok.inj hdecode).symm
  next => cases hdecode

/-- Encoding a value and decoding it puts all its maps into canonical order, and nothing else
happens: encoding what was decoded gives the same bytes. -/
theorem decode_encode (v : Value) (bytes : List UInt8) (hsize : v.Addressable)
    (hdepth : v.depth ≤ depthLimit) (hencode : v.encode = .ok bytes) :
    decode bytes = .ok v.canonical ∧ v.canonical.encode = .ok bytes := by
  refine ⟨?_, (rearranged_canonical v).encode_eq_ok hencode⟩
  rw [decode_of_encode hencode hsize, if_pos hdepth]

theorem decode_encode_unordered :
    unordered.Addressable ∧ unordered.depth ≤ depthLimit ∧
      unordered.encode = .ok unorderedBytes ∧
      decode unorderedBytes = .ok unordered.canonical ∧
      unordered.canonical.encode = .ok unorderedBytes := by
  have hdepth : unordered.depth ≤ depthLimit := by decide
  obtain ⟨hdecode, hagain⟩ :=
    decode_encode unordered unorderedBytes addressable_unordered hdepth encode_unordered
  exact ⟨addressable_unordered, hdepth, encode_unordered, hdecode, hagain⟩

end Value

end LazyCollections
