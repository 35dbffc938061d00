import LazyCollections.Proofs.Cbor.Values
import LazyCollections.Proofs.Storage.Delivery

/-!
# Contents that come back from cache entries

An entry that was encoded and is decoded again has its values in canonical form. If elements and
keys are read back from the canonical form of what they are stored as, such an entry gives back the
contents that it was made of.
-/

namespace LazyCollections

set_option autoImplicit false

/-- An element is read back from the canonical form of its stored form, which is never null. -/
structure ElementType.StorableCanonical (T : ElementType) : Prop where
  internalize_canonical : ∀ (e : T.Element) (v : Value), T.externalize e = .ok v →
    T.internalize v.canonical = .ok e
  externalize_ne_null : ∀ e : T.Element, T.externalize e ≠ .ok .null

def Scalar.RestoresCanonical (S : Scalar) : Prop :=
  ∀ s : S.Carrier, S.fromValue? (S.toValue s).canonical = some s

namespace Scalar

theorem restoresCanonical_text : text.RestoresCanonical := fun _ => rfl

theorem restoresCanonical_integer : integer.RestoresCanonical := fun _ => rfl

theorem restoresCanonical_bool : bool.RestoresCanonical := fun _ => rfl

theorem restoresCanonical_entityId : entityId.RestoresCanonical := fromValue?_entityId

theorem restoresCanonical_unkeyed : unkeyed.RestoresCanonical := nofun

end Scalar

theorem ElementType.storableCanonical_ofScalar {S : Scalar} (hS : S.RestoresCanonical)
    (hnull : ∀ s, S.toValue s ≠ .null) : (ofScalar S).StorableCanonical where
  internalize_canonical s v h := by
    obtain rfl : S.toValue s = v := Except.ok.inj h
    change S.fromValue (S.toValue s).canonical = .ok s
    rw [Scalar.fromValue, hS s]
  externalize_ne_null s h := hnull s (Except.ok.inj h)

theorem Part.canonical_toValue (part : Part) : part.toValue.canonical = part.toValue := by
  rw [toValue_eq]
  rfl

theorem Part.storableCanonical : Part.elementType.StorableCanonical where
  internalize_canonical part v h := by
    obtain rfl : part.toValue = v := Except.ok.inj h
    change Part.ofValue (Part.toValue part).canonical = .ok part
    rw [Part.canonical_toValue part]
    exact Part.ofValue_toValue part
  externalize_ne_null part h := by
    have hv : part.toValue = .null := Except.ok.inj h
    rw [Part.toValue_eq part] at hv
    cases hv

namespace CacheEntry

def canonical : CacheEntry → CacheEntry
  | sequence elements => sequence (elements.map Value.canonical)
  | set elements => set (elements.map Value.canonical)
  | keyed entries => keyed (entries.map (Prod.map Value.canonical Value.canonical))

@[simp] theorem shape_canonical (entry : CacheEntry) : entry.canonical.shape = entry.shape := by
  cases entry <;> rfl

theorem elements_canonical (entry : CacheEntry) :
    entry.canonical.elements = Value.canonicalItems entry.elements := by
  rw [Value.canonicalItems_eq_map]
  cases entry <;> simp [canonical, elements]

theorem keys_canonical (entry : CacheEntry) :
    entry.canonical.keys = Value.canonicalItems entry.keys := by
  rw [Value.canonicalItems_eq_map]
  cases entry <;> simp [canonical, keys]

theorem canonical_toValue (entry : CacheEntry) :
    entry.toValue.canonical = entry.canonical.toValue := by
  rw [toValue_eq, toValue_eq, elements_canonical, keys_canonical, shape_canonical]
  rfl

theorem eq_canonical_of_decode {entry decoded : CacheEntry} {bytes : List UInt8}
    (hencode : entry.encode = .ok bytes) (hsize : bytes.length < UInt64.size)
    (hdecode : decode bytes = .ok decoded) : decoded = entry.canonical := by
  obtain ⟨v, hv, hread⟩ := bind_eq_ok.mp hdecode
  rw [encode, mapError_eq_ok] at hencode
  rw [mapError_eq_ok] at hv
  rw [Value.eq_canonical_of_decode hencode hsize hv, canonical_toValue,
    ofValue_toValue] at hread
  exact (Except.ok.inj hread).symm

theorem decode_of_encode {entry : CacheEntry} {bytes : List UInt8}
    (hencode : entry.encode = .ok bytes) (hsize : bytes.length < UInt64.size)
    (hdepth : entry.toValue.depth ≤ Value.depthLimit) :
    decode bytes = .ok entry.canonical := by
  rw [encode, mapError_eq_ok] at hencode
  have hdecode := Value.decode_of_encode hencode (Value.addressable_of_encode hencode hsize)
  rw [if_pos hdepth, canonical_toValue] at hdecode
  rw [decode, hdecode]
  exact ofValue_toValue entry.canonical

variable {T : ElementType} {K : Scalar}

theorem internalizeSlot_canonical (hT : T.StorableCanonical) {e : T.Element} {v : Value}
    (h : T.externalize e = .ok v) : T.internalizeSlot v.canonical = .ok (some e) := by
  have hnull : v.canonical.isNull = false := by
    cases v with
    | null => exact absurd h (hT.externalize_ne_null e)
    | _ => rfl
  rw [ElementType.internalizeSlot, hnull, hT.internalize_canonical e v h]
  rfl

theorem foldlM_addRow_canonical_sequence (hT : T.StorableCanonical)
    {slots : List (Option T.Element)} {entry : CacheEntry}
    (h : ofAggregate (.sequence slots : Aggregate T K) = .ok entry) :
    entry.shape = .sequence ∧
      entry.canonical.rows.foldlM (fun a r => Builder.addRow a r.1 r.2)
        (.sequence [] : Aggregate T K) = .ok (.sequence slots) := by
  obtain ⟨values, hvalues, h⟩ := bind_eq_ok.mp h
  obtain rfl := Except.ok.inj h
  refine ⟨rfl, ?_⟩
  have hread : List.Forall₂ (fun v slot => T.internalizeSlot v = .ok slot)
      (values.map Value.canonical) slots := by
    rw [List.forall₂_map_left_iff]
    refine (mapM_eq_ok.mp hvalues).flip.imp ?_
    intro v slot hslot
    cases slot with
    | none =>
      obtain rfl := Except.ok.inj hslot
      rfl
    | some e => exact internalizeSlot_canonical hT hslot
  rw [canonical, rows, List.foldlM_map]
  exact Builder.foldlM_addRow_sequence hread []

theorem foldlM_addRow_canonical_set (hT : T.StorableCanonical) {items : SortedMap T.Id T.Element}
    (hitems : (Aggregate.set items : Aggregate T K).KeyedById) {entry : CacheEntry}
    (h : ofAggregate (.set items : Aggregate T K) = .ok entry) :
    entry.shape = .set ∧
      entry.canonical.rows.foldlM (fun a r => Builder.addRow a r.1 r.2)
        (.set ∅ : Aggregate T K) = .ok (.set items) := by
  obtain ⟨values, hvalues, h⟩ := bind_eq_ok.mp h
  obtain rfl := Except.ok.inj h
  refine ⟨rfl, ?_⟩
  have hread : List.Forall₂ (fun v e => T.internalizeSlot v = .ok (some e))
      (values.map Value.canonical) items.values := by
    rw [List.forall₂_map_left_iff]
    exact (mapM_eq_ok.mp hvalues).flip.imp fun _ _ => internalizeSlot_canonical hT
  have hbuilt := Builder.foldlM_addRow_set (K := K) hread ∅
  rw [SortedMap.values, List.map_map] at hbuilt
  rw [canonical, rows, List.foldlM_map]
  exact hbuilt.trans (congrArg (fun m => Except.ok (Aggregate.set m))
    (hitems.ofList_eq (List.Perm.refl items.entries)))

theorem foldlM_addRow_canonical_keyed (hT : T.StorableCanonical) (hK : K.RestoresCanonical)
    {items : SortedMap K.Carrier T.Element} {entry : CacheEntry}
    (h : ofAggregate (.keyed items : Aggregate T K) = .ok entry) :
    entry.shape = .keyed ∧
      entry.canonical.rows.foldlM (fun a r => Builder.addRow a r.1 r.2)
        (.keyed ∅ : Aggregate T K) = .ok (.keyed items) := by
  obtain ⟨pairs, hpairs, h⟩ := bind_eq_ok.mp h
  obtain rfl := Except.ok.inj h
  refine ⟨rfl, ?_⟩
  have hread : List.Forall₂ (fun r e => K.fromValue? r.1 = some e.1 ∧
      T.internalizeSlot r.2 = .ok (some e.2))
      (pairs.map (Prod.map Value.canonical Value.canonical)) items.entries := by
    rw [List.forall₂_map_left_iff]
    refine (mapM_eq_ok.mp hpairs).flip.imp ?_
    intro r e hr
    obtain ⟨v, hv, hr⟩ := bind_eq_ok.mp hr
    obtain rfl := Except.ok.inj hr
    exact ⟨hK e.1, internalizeSlot_canonical hT hv⟩
  have hbuilt := Builder.foldlM_addRow_keyed hread ∅
  have hitems : SortedMap.ofList items.entries = items := SortedMap.ofList_eq fun _ => Iff.rfl
  rw [canonical, rows, List.foldlM_map]
  exact hbuilt.trans (congrArg (fun m => Except.ok (Aggregate.keyed m)) hitems)

theorem foldlM_addRow_rows_canonical (hT : T.StorableCanonical) (hK : K.RestoresCanonical)
    {a : Aggregate T K} (ha : a.KeyedById) {entry : CacheEntry} (h : ofAggregate a = .ok entry) :
    entry.shape = a.shape ∧
      entry.canonical.rows.foldlM (fun a r => Builder.addRow a r.1 r.2)
        (.empty a.shape : Aggregate T K) = .ok a := by
  cases a with
  | sequence slots => exact foldlM_addRow_canonical_sequence hT h
  | set items => exact foldlM_addRow_canonical_set hT ha h
  | keyed items => exact foldlM_addRow_canonical_keyed hT hK h

theorem assemble_canonical (hT : T.StorableCanonical) (hK : K.RestoresCanonical)
    {a : Aggregate T K} (ha : a.KeyedById) {entry : CacheEntry} (h : ofAggregate a = .ok entry) :
    entry.canonical.assemble a.shape = .ok a := by
  obtain ⟨hshape, hrows⟩ := foldlM_addRow_rows_canonical hT hK ha h
  have hstart : (Builder.start entry.canonical.shape).announce entry.canonical.size =
      (⟨.empty a.shape, some entry.canonical.size⟩ : Builder T K) := by
    rw [Builder.start, Builder.announce, Aggregate.cleared, Aggregate.shape_empty,
      shape_canonical, hshape]
  rw [assemble, if_pos ((shape_canonical entry).trans hshape), hstart, Builder.readAll_eq, hrows]
  rfl

theorem eq_of_decode_assemble (hT : T.StorableCanonical) (hK : K.RestoresCanonical)
    {a b : Aggregate T K} (ha : a.KeyedById) {bytes : List UInt8}
    (hbytes : (ofAggregate a >>= encode) = .ok bytes) (hsize : bytes.length < UInt64.size)
    (hread : (decode bytes >>= fun entry => entry.assemble a.shape) = .ok b) : b = a := by
  obtain ⟨entry, hentry, hencode⟩ := bind_eq_ok.mp hbytes
  obtain ⟨decoded, hdecode, hassemble⟩ := bind_eq_ok.mp hread
  rw [eq_canonical_of_decode hencode hsize hdecode, assemble_canonical hT hK ha hentry]
    at hassemble
  exact (Except.ok.inj hassemble).symm

end CacheEntry

end LazyCollections
