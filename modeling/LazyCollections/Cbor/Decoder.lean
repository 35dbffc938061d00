import LazyCollections.Cbor.Error
import LazyCollections.Cbor.Item
import LazyCollections.Value.Order
import LazyCollections.Value.Text

/-!
# Decoding values

The bytes must hold exactly one item, nested at most 256 deep. It becomes a value if its integers
fit 64 bits with their sign and it holds no float, no tag and no key twice in one map. The entries
of every map come out in key order.
-/

namespace LazyCollections

set_option autoImplicit false

open Cbor

namespace Value

def ofInteger (n : Int) : Except CodecError Value :=
  if Int64.minValue.toInt ≤ n ∧ n ≤ Int64.maxValue.toInt then .ok (integer (Int64.ofInt n))
  else .error .integerOverflow

/-- The map of the given entries, unless two of them have one key. -/
def ofDistinctEntries (entries : List (Value × Value)) : Except CodecError Value :=
  let sorted := sortEntries entries
  match StableSort.repeated? (fun a b => a.1 == b.1) sorted with
  | some (key, _) => .error (.duplicateKey key.display)
  | none => .ok (map sorted)

mutual

def ofItem : Item → Except CodecError Value
  | .null => return null
  | .bool b => return bool b
  | .integer n => ofInteger n
  | .bytes bs => return bytes bs
  | .text s => return text s
  | .array items => return array (← ofItems items)
  | .map entries => do ofDistinctEntries (← ofEntryItems entries)
  | .tag number _ => .error (.unsupportedType ("tag " ++ toString number))
  | .float => .error .floatForbidden

def ofItems : List Item → Except CodecError (List Value)
  | [] => return []
  | i :: is => return (← ofItem i) :: (← ofItems is)

def ofEntryItems : List (Item × Item) → Except CodecError (List (Value × Value))
  | [] => return []
  | (k, v) :: es => do
    let entry := (← ofItem k, ← ofItem v)
    return entry :: (← ofEntryItems es)

end

def depthLimit : Nat := 256

def decode (bytes : List UInt8) : Except CodecError Value :=
  match readItem depthLimit bytes with
  | none => .error (.decodingFailed "malformed item")
  | some (item, []) => ofItem item
  | some (_, rest) => .error (.trailingBytes rest.length)

end Value

end LazyCollections
