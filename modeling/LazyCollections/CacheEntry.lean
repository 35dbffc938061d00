import LazyCollections.Aggregate.Builder
import LazyCollections.Cbor.Decoder
import LazyCollections.Cbor.Writer

/-!
# Cache entries

A cache entry is the stored form of the contents of a collection. `CacheEntry.ofAggregate` makes
one, `CacheEntry.assemble` gives the contents back, and `encode` and `decode` go to bytes and back
through a map with the fields `shape`, `elements` and `keys`. Every element of a keyed entry has
its key by construction; reading bytes refuses an entry whose numbers of keys and elements do not
fit its shape.
-/

namespace LazyCollections

set_option autoImplicit false

inductive CacheEntry where
  | sequence (elements : List Value)
  | set (elements : List Value)
  | keyed (entries : List (Value × Value))
deriving DecidableEq

namespace CacheEntry

def shape : CacheEntry → Shape
  | sequence _ => .sequence
  | set _ => .set
  | keyed _ => .keyed

def elements : CacheEntry → List Value
  | sequence elements => elements
  | set elements => elements
  | keyed entries => entries.map (·.2)

def keys : CacheEntry → List Value
  | sequence _ | set _ => []
  | keyed entries => entries.map (·.1)

def size (entry : CacheEntry) : Nat :=
  entry.elements.length

variable {T : ElementType} {K : Scalar}

def ofAggregate : Aggregate T K → Except Error CacheEntry
  | .sequence slots =>
    return sequence (← slots.mapM fun
      | some e => T.externalize e
      | none => return .null)
  | .set items => return set (← items.values.mapM T.externalize)
  | .keyed items =>
    return keyed (← items.entries.mapM fun e => return (K.toValue e.1, ← T.externalize e.2))

/-- The rows that a loader of these contents would deliver. -/
def rows : CacheEntry → List (RowSlot × Value)
  | sequence elements => elements.zipIdx.map fun e => (.index e.2, e.1)
  | set elements => elements.map fun e => (.unordered, e)
  | keyed entries => entries.map fun e => (.key e.1, e.2)

def assemble (entry : CacheEntry) (expected : Shape) : Except Error (Aggregate T K) :=
  if entry.shape = expected then do
    let builder ← ((Builder.start entry.shape).announce entry.size).readAll entry.rows
    return builder.aggregate
  else .error (.shapeMismatch expected entry.shape)

def toValue (entry : CacheEntry) : Value :=
  .ofEntries
    [(.text "shape", .text entry.shape.name), (.text "elements", .array entry.elements),
     (.text "keys", .array entry.keys)]

/-- An entry of the given parts, if the numbers of keys and elements fit the shape. -/
def ofParts (shape : Shape) (elements keys : List Value) : Except Error CacheEntry :=
  match shape with
  | .keyed =>
    if keys.length = elements.length then .ok (keyed (keys.zip elements))
    else .error (.malformedEntry (.keyCount shape keys.length elements.length))
  | .sequence =>
    if keys.isEmpty then .ok (sequence elements)
    else .error (.malformedEntry (.keyCount shape keys.length elements.length))
  | .set =>
    if keys.isEmpty then .ok (set elements)
    else .error (.malformedEntry (.keyCount shape keys.length elements.length))

def readField {α : Type} (v : Value) (name : String) (read : Value → Option α)
    (cause : EntryCause) : Except Error α :=
  match v.get? name >>= read with
  | some a => .ok a
  | none => .error (.malformedEntry cause)

def ofValue (v : Value) : Except Error CacheEntry := do
  let shape ← readField v "shape" (fun w => w.asText? >>= Shape.ofName?) .noShape
  let elements ← readField v "elements" Value.asArray? .noElements
  let keys ← readField v "keys" Value.asArray? .noKeys
  ofParts shape elements keys

def encode (entry : CacheEntry) : Except Error (List UInt8) :=
  entry.toValue.encode.mapError .codec

def decode (bytes : List UInt8) : Except Error CacheEntry := do
  ofValue (← (Value.decode bytes).mapError .codec)

theorem length_keys (entry : CacheEntry) :
    entry.keys.length = if entry.shape = .keyed then entry.elements.length else 0 := by
  cases entry <;> simp [keys, shape, elements]

@[simp] theorem ofParts_parts (entry : CacheEntry) :
    ofParts entry.shape entry.elements entry.keys = .ok entry := by
  cases entry with
  | sequence elements => rfl
  | set elements => rfl
  | keyed entries => simp [ofParts, shape, elements, keys, List.zip_map']

theorem toValue_eq (entry : CacheEntry) :
    entry.toValue = .map
      [(.text "keys", .array entry.keys), (.text "shape", .text entry.shape.name),
       (.text "elements", .array entry.elements)] := rfl

@[simp] theorem ofValue_toValue (entry : CacheEntry) : ofValue entry.toValue = .ok entry := by
  have hshape : readField entry.toValue "shape" (fun w => w.asText? >>= Shape.ofName?) .noShape =
      .ok entry.shape := by
    simp [toValue_eq, readField, Value.get?, Value.asMap?, Value.asText?]
  have helements : readField entry.toValue "elements" Value.asArray? .noElements =
      .ok entry.elements := by
    simp [toValue_eq, readField, Value.get?, Value.asMap?, Value.asText?, Value.asArray?]
  have hkeys : readField entry.toValue "keys" Value.asArray? .noKeys = .ok entry.keys := by
    simp [toValue_eq, readField, Value.get?, Value.asMap?, Value.asText?, Value.asArray?]
  simp only [ofValue, hshape, helements, hkeys]
  exact ofParts_parts entry

end CacheEntry

end LazyCollections
