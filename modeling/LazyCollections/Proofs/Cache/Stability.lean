import LazyCollections.Proofs.Cache.Entries
import LazyCollections.Proofs.Cbor.Decoded

/-!
# Entries that are well formed and stable

Bytes say in three fields what shape an entry has, what its elements are and what its keys are, and
nothing but a comparison of two lengths makes them an entry. It is enough: an entry is put together
by looking up the key of every element by its index, and no index is outside of the keys.

What was decoded is in canonical form, fits memory and is nested no deeper than its bytes. So it can
be encoded, although fields of the bytes are left out and others come in another order, and it comes
back as it is.
-/

namespace LazyCollections

set_option autoImplicit false

theorem Shape.ofName?_eq_some {text : String} {shape : Shape} (h : ofName? text = some shape) :
    text = shape.name := by
  have hfound := List.find?_some h
  exact (of_decide_eq_true hfound).symm

namespace Value

theorem eq_text_of_asText? {v : Value} {s : String} (h : v.asText? = some s) : v = text s := by
  cases v with
  | text _ => exact congrArg text (Option.some.inj h)
  | null | bool _ | integer _ | bytes _ | array _ | map _ => cases h

theorem eq_array_of_asArray? {v : Value} {items : List Value} (h : v.asArray? = some items) :
    v = array items := by
  cases v with
  | array _ => exact congrArg array (Option.some.inj h)
  | null | bool _ | integer _ | bytes _ | text _ | map _ => cases h

/-- A value as the decoder gives it: in canonical form, in memory, and nested at most `limit`
deep. -/
structure Settled (limit : Nat) (v : Value) : Prop where
  ascending : v.Ascending
  fits : v.Fits limit

theorem settled_of_decode {bytes : List UInt8} {v : Value} (hsize : bytes.length < UInt64.size)
    (hdecode : decode bytes = .ok v) : v.Settled depthLimit := by
  obtain ⟨item, hread, hv⟩ := decode_eq_ok hdecode
  obtain ⟨-, hfits⟩ := Cbor.reads_readItem depthLimit bytes item [] hsize hread
  exact ⟨ascending_of_ofItem hv, hfits v hv⟩

theorem depth_le_of_mem_entries {es : List (Value × Value)} {e : Value × Value} (h : e ∈ es) :
    e.2.depth ≤ depthOfEntries es := by
  induction h with
  | head es => simp only [depthOfEntries]; omega
  | tail e _ ih => simp only [depthOfEntries]; omega

/-- What stands in a map is nested one level less. -/
theorem Settled.get? {limit : Nat} {v w : Value} {name : String} (h : v.Settled limit)
    (hget : v.get? name = some w) : ∃ below, limit = below + 1 ∧ w.Settled below := by
  obtain ⟨es, hmap, hfound⟩ := Option.bind_eq_some_iff.mp hget
  obtain ⟨e, he, hw⟩ := Option.bind_eq_some_iff.mp hfound
  obtain rfl := Option.some.inj hw
  cases v with
  | map entries =>
    obtain rfl := Option.some.inj hmap
    have hmem := List.mem_of_find?_eq_some he
    have hdepth : depthOfEntries entries + 1 ≤ limit := h.fits.2
    have hbelow := depth_le_of_mem_entries hmem
    refine ⟨limit - 1, by omega, (ascendingEntries_iff.mp h.ascending.2 e hmem).2,
      (addressableEntries_iff.mp h.fits.1.2 e hmem).2, by omega⟩
  | null | bool _ | integer _ | bytes _ | text _ | array _ => cases hmap

theorem settled_map {limit : Nat} {es : List (Value × Value)}
    (horder : (es.map Prod.fst).Pairwise fun a b => compareCanonical a b = .lt)
    (hlength : es.length < UInt64.size) (h : ∀ e ∈ es, e.1.Settled limit ∧ e.2.Settled limit) :
    (map es).Settled (limit + 1) where
  ascending := ⟨List.pairwise_map.mp horder,
    ascendingEntries_iff.mpr fun e he => ⟨(h e he).1.ascending, (h e he).2.ascending⟩⟩
  fits := fits_map hlength fun e he => ⟨(h e he).1.fits, (h e he).2.fits⟩

theorem Settled.encode {v : Value} (h : v.Settled depthLimit) :
    ∃ bytes, v.encode = .ok bytes ∧ decode bytes = .ok v := by
  obtain ⟨haddressable, hdepth⟩ := h.fits
  obtain ⟨bytes, hencode⟩ := (exists_encode_iff haddressable).mpr h.ascending.distinctKeys
  have hdecode := (decode_encode v bytes haddressable hdepth hencode).1
  rw [h.ascending.canonical_eq] at hdecode
  exact ⟨bytes, hencode, hdecode⟩

end Value

namespace CacheEntry

/-- What stands in the three fields of an entry, in whatever numbers. -/
structure Fields where
  shape : Shape
  elements : List Value
  keys : List Value

namespace Fields

/-- There is a key for every element of a keyed entry, and no key in another one. -/
def Matched (f : Fields) : Prop :=
  f.keys.length = if f.shape = .keyed then f.elements.length else 0

def ofValue (v : Value) : Except Error Fields := do
  let shape ← readField v "shape" (fun w => w.asText? >>= Shape.ofName?) .noShape
  let elements ← readField v "elements" Value.asArray? .noElements
  let keys ← readField v "keys" Value.asArray? .noKeys
  return ⟨shape, elements, keys⟩

end Fields

def fields (entry : CacheEntry) : Fields :=
  ⟨entry.shape, entry.elements, entry.keys⟩

theorem matched_fields (entry : CacheEntry) : entry.fields.Matched :=
  entry.length_keys

theorem readField_eq_ok {α : Type} {v : Value} {name : String} {read : Value → Option α}
    {cause : EntryCause} {a : α} :
    readField v name read cause = .ok a ↔ ∃ w, v.get? name = some w ∧ read w = some a := by
  rw [← Option.bind_eq_some_iff]
  unfold readField
  simp only [Option.bind_eq_bind]
  cases (v.get? name).bind read <;> simp

theorem fields_of_ofParts {f : Fields} {entry : CacheEntry}
    (h : ofParts f.shape f.elements f.keys = .ok entry) : entry.fields = f := by
  obtain ⟨shape, elements, keys⟩ := f
  cases shape with
  | sequence =>
    simp only [ofParts] at h
    split at h
    next hkeys =>
      obtain rfl := Except.ok.inj h
      obtain rfl := List.isEmpty_iff.mp hkeys
      rfl
    next => cases h
  | set =>
    simp only [ofParts] at h
    split at h
    next hkeys =>
      obtain rfl := Except.ok.inj h
      obtain rfl := List.isEmpty_iff.mp hkeys
      rfl
    next => cases h
  | keyed =>
    simp only [ofParts] at h
    split at h
    next hlength =>
      obtain rfl := Except.ok.inj h
      simp only [fields, CacheEntry.shape, CacheEntry.elements, CacheEntry.keys,
        List.map_snd_zip (Nat.le_of_eq hlength.symm), List.map_fst_zip (Nat.le_of_eq hlength)]
    next => cases h

theorem ofValue_eq (v : Value) :
    ofValue v = Fields.ofValue v >>= fun f => ofParts f.shape f.elements f.keys := by
  simp only [ofValue, Fields.ofValue, bind_assoc, pure_bind]

theorem fields_of_decode {bytes : List UInt8} {entry : CacheEntry} (h : decode bytes = .ok entry) :
    ∃ v, Value.decode bytes = .ok v ∧ Fields.ofValue v = .ok entry.fields := by
  obtain ⟨v, hv, hread⟩ := bind_eq_ok.mp h
  rw [mapError_eq_ok] at hv
  rw [ofValue_eq] at hread
  obtain ⟨f, hf, hparts⟩ := bind_eq_ok.mp hread
  rw [fields_of_ofParts hparts]
  exact ⟨v, hv, hf⟩

theorem Fields.ofValue_eq_ok {v : Value} {f : Fields} (h : ofValue v = .ok f) :
    v.get? "shape" = some (.text f.shape.name) ∧ v.get? "elements" = some (.array f.elements) ∧
      v.get? "keys" = some (.array f.keys) := by
  obtain ⟨shape, hshape, h⟩ := bind_eq_ok.mp h
  obtain ⟨elements, helements, h⟩ := bind_eq_ok.mp h
  obtain ⟨keys, hkeys, h⟩ := bind_eq_ok.mp h
  obtain rfl := Except.ok.inj h
  obtain ⟨u, hu, hname⟩ := readField_eq_ok.mp hshape
  obtain ⟨text, htext, hname⟩ := Option.bind_eq_some_iff.mp hname
  obtain ⟨x, hx, hitems⟩ := readField_eq_ok.mp helements
  obtain ⟨y, hy, hkeyItems⟩ := readField_eq_ok.mp hkeys
  rw [hu, hx, hy, Value.eq_text_of_asText? htext, Shape.ofName?_eq_some hname,
    Value.eq_array_of_asArray? hitems, Value.eq_array_of_asArray? hkeyItems]
  exact ⟨rfl, rfl, rfl⟩

namespace Fields

variable {T : ElementType} {K : Scalar}

/-- The slot of the element at an index. For a keyed element its key is looked up, and there is no
slot if the index is outside of the keys. -/
def slot? (f : Fields) (i : Nat) : Option RowSlot :=
  match f.shape with
  | .sequence => some (.index i)
  | .set => some .unordered
  | .keyed => f.keys[i]?.map .key

/-- Reads elements, the first of which has the index `i`. No result means that a key was looked up
outside of the keys. -/
def readFrom? (f : Fields) (b : Builder T K) (i : Nat) :
    List Value → Option (Except Error (Builder T K))
  | [] => some (.ok b)
  | v :: vs => do
    let slot ← f.slot? i
    match b.read slot v with
    | .ok b => f.readFrom? b (i + 1) vs
    | .error error => some (.error error)

def assemble? (f : Fields) (expected : Shape) : Option (Except Error (Aggregate T K)) :=
  if f.shape = expected then
    (f.readFrom? ((Builder.start f.shape).announce f.elements.length) 0 f.elements).map
      (Except.map Builder.aggregate)
  else some (.error (.shapeMismatch expected f.shape))

theorem readFrom?_eq {f : Fields} {rows : List (RowSlot × Value)} {b : Builder T K} {i : Nat}
    (h : ∀ j r, rows[j]? = some r → f.slot? (i + j) = some r.1) :
    f.readFrom? b i (rows.map Prod.snd) = some (b.readAll rows) := by
  induction rows generalizing b i with
  | nil => rfl
  | cons r rows ih =>
    have hslot : f.slot? i = some r.1 := h 0 r rfl
    rw [List.map_cons, Builder.readAll, List.foldlM_cons]
    simp only [readFrom?, hslot, Option.bind_eq_bind, Option.bind_some]
    cases b.read r.1 r.2 with
    | error error => rfl
    | ok b =>
      refine ih fun j s hs => ?_
      rw [Nat.add_right_comm]
      exact h (j + 1) s hs

end Fields

theorem map_snd_rows (entry : CacheEntry) : entry.rows.map Prod.snd = entry.elements := by
  cases entry <;> simp [rows, elements, Function.comp_def]

theorem slot?_of_rows {entry : CacheEntry} {i : Nat} {r : RowSlot × Value}
    (h : entry.rows[i]? = some r) : entry.fields.slot? i = some r.1 := by
  cases entry with
  | sequence elements =>
    rw [rows, List.getElem?_map, List.getElem?_zipIdx, Option.map_map, Option.map_eq_some_iff] at h
    obtain ⟨v, -, rfl⟩ := h
    simp [Fields.slot?, fields, shape]
  | set elements =>
    rw [rows, List.getElem?_map, Option.map_eq_some_iff] at h
    obtain ⟨v, -, rfl⟩ := h
    rfl
  | keyed entries =>
    rw [rows, List.getElem?_map, Option.map_eq_some_iff] at h
    obtain ⟨e, he, rfl⟩ := h
    simp [Fields.slot?, fields, shape, keys, he]

variable {T : ElementType} {K : Scalar}

/-- Assembling an entry never looks a key up outside of its keys. -/
theorem assemble?_fields (entry : CacheEntry) (expected : Shape) :
    entry.fields.assemble? expected =
      some (entry.assemble expected : Except Error (Aggregate T K)) := by
  by_cases hshape : entry.shape = expected
  · have hread := Fields.readFrom?_eq (T := T) (K := K) (f := entry.fields) (i := 0)
      (b := (Builder.start entry.shape).announce entry.size)
      fun j r hr => (Nat.zero_add j).symm ▸ slot?_of_rows hr
    rw [map_snd_rows] at hread
    calc
      entry.fields.assemble? expected
        = (entry.fields.readFrom? ((Builder.start entry.shape).announce entry.size) 0
            entry.elements).map (Except.map Builder.aggregate) := if_pos hshape
      _ = some ((((Builder.start entry.shape).announce entry.size).readAll entry.rows).map
            Builder.aggregate) := by rw [hread]; rfl
      _ = some (entry.assemble expected) := by
          rw [assemble, if_pos hshape]
          cases ((Builder.start entry.shape).announce entry.size).readAll entry.rows <;> rfl
  · rw [assemble, if_neg hshape]
    exact if_neg hshape

/-- The value of an entry whose fields were read from a settled value is settled: it is nested no
deeper, and its own keys are in order. -/
theorem settled_toValue {v : Value} {entry : CacheEntry} {limit : Nat} (hv : v.Settled limit)
    (h : Fields.ofValue v = .ok entry.fields) : entry.toValue.Settled limit := by
  obtain ⟨hshape, helements, hkeys⟩ := Fields.ofValue_eq_ok h
  obtain ⟨below, rfl, hshape⟩ := hv.get? hshape
  obtain ⟨_, hbelow, helements⟩ := hv.get? helements
  obtain rfl := Nat.succ.inj hbelow
  obtain ⟨_, hbelow, hkeys⟩ := hv.get? hkeys
  obtain rfl := Nat.succ.inj hbelow
  have hname (s : String) (hs : (Text.utf8 s).length < UInt64.size) :
      (Value.text s).Settled below := ⟨trivial, hs, Nat.zero_le _⟩
  have horder : [Value.text "keys", .text "shape", .text "elements"].Pairwise
      fun a b => a.compareCanonical b = .lt := by
    decide
  rw [toValue_eq]
  refine Value.settled_map horder (show 3 < UInt64.size by decide) ?_
  simp only [List.forall_mem_cons, List.not_mem_nil, false_imp_iff, implies_true, and_true]
  exact ⟨⟨hname _ (by decide), hkeys⟩, ⟨hname _ (by decide), hshape⟩, hname _ (by decide),
    helements⟩

theorem encode_of_decode {bytes : List UInt8} {entry : CacheEntry}
    (hsize : bytes.length < UInt64.size) (hdecode : decode bytes = .ok entry) :
    ∃ again, entry.encode = .ok again ∧ decode again = .ok entry := by
  obtain ⟨v, hv, hfields⟩ := fields_of_decode hdecode
  have hsettled := settled_toValue (Value.settled_of_decode hsize hv) hfields
  obtain ⟨again, hencode, hagain⟩ := hsettled.encode
  refine ⟨again, ?_, ?_⟩
  · rw [encode, hencode]
    rfl
  · rw [decode, hagain]
    exact ofValue_toValue entry

/-- However an entry came to be, its keys match its elements, so that assembling it looks up no key
that is not there. If it was decoded, from bytes in whatever form, it is encoded again and decoded
to itself; if it was made and is encoded, it is decoded to its canonical form. -/
theorem wellFormed_and_stable (entry : CacheEntry) :
    entry.fields.Matched ∧
      (∀ (T : ElementType) (K : Scalar) (expected : Shape), entry.fields.assemble? expected =
        some (entry.assemble expected : Except Error (Aggregate T K))) ∧
      (∀ bytes : List UInt8, bytes.length < UInt64.size → decode bytes = .ok entry →
        (∃ v, Value.decode bytes = .ok v ∧ Fields.ofValue v = .ok entry.fields) ∧
          ∃ again, entry.encode = .ok again ∧ decode again = .ok entry) ∧
      ∀ bytes : List UInt8, entry.encode = .ok bytes → bytes.length < UInt64.size →
        entry.toValue.depth ≤ Value.depthLimit → decode bytes = .ok entry.canonical := by
  refine ⟨entry.matched_fields, ?_, ?_, ?_⟩
  · exact fun T K expected => entry.assemble?_fields expected
  · exact fun bytes hsize hdecode => ⟨fields_of_decode hdecode, encode_of_decode hsize hdecode⟩
  · exact fun bytes hencode hsize hdepth => decode_of_encode hencode hsize hdepth

/-- An open map with the fields in no order and one more between them, an open array of elements
with a map in no order, and a head that is wider than needed. -/
def looseBytes : List UInt8 :=
  [0xbf, 0x68, 101, 108, 101, 109, 101, 110, 116, 115, 0x9f, 0xa2, 0x61, 98, 1, 0x61, 97, 2, 0xff,
    0x61, 118, 0x18, 1, 0x65, 115, 104, 97, 112, 101, 0x65, 107, 101, 121, 101, 100,
    0x64, 107, 101, 121, 115, 0x98, 1, 0x61, 107, 0xff]

def looseEntry : CacheEntry :=
  keyed [(.text "k", .map [(.text "b", .integer 1), (.text "a", .integer 2)])]

def strictEntry : CacheEntry :=
  keyed [(.text "k", .map [(.text "a", .integer 2), (.text "b", .integer 1)])]

def strictBytes : List UInt8 :=
  [0xa3, 0x64, 107, 101, 121, 115, 0x81, 0x61, 107, 0x65, 115, 104, 97, 112, 101, 0x65, 107, 101,
    121, 101, 100, 0x68, 101, 108, 101, 109, 101, 110, 116, 115, 0x81, 0xa2, 0x61, 97, 2, 0x61, 98,
    1]

theorem wellFormed_and_stable_loose :
    looseBytes.length < UInt64.size ∧ decode looseBytes = .ok strictEntry ∧
      (∃ again, strictEntry.encode = .ok again ∧ decode again = .ok strictEntry) ∧
      looseEntry.encode = .ok strictBytes ∧ strictBytes.length < UInt64.size ∧
      looseEntry.toValue.depth ≤ Value.depthLimit ∧ looseEntry.canonical = strictEntry ∧
      decode strictBytes = .ok looseEntry.canonical := by
  have hsize : looseBytes.length < UInt64.size := by decide
  have hdecode : decode looseBytes = .ok strictEntry := by decide +kernel
  have hencode : looseEntry.encode = .ok strictBytes := by decide +kernel
  have hstrictSize : strictBytes.length < UInt64.size := by decide
  have hdepth : looseEntry.toValue.depth ≤ Value.depthLimit := by decide
  obtain ⟨-, -, hdecoded, -⟩ := wellFormed_and_stable strictEntry
  obtain ⟨-, -, -, hmade⟩ := wellFormed_and_stable looseEntry
  exact ⟨hsize, hdecode, (hdecoded looseBytes hsize hdecode).2, hencode, hstrictSize, hdepth, rfl,
    hmade strictBytes hencode hstrictSize hdepth⟩

end CacheEntry

end LazyCollections
