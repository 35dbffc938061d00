import LazyCollections.Cbor.Error
import LazyCollections.Cbor.Head
import LazyCollections.Text.Utf8
import LazyCollections.Value.Order
import LazyCollections.Value.Text

/-!
# Encoding values

A value is first brought into the order in which it is written: the entries of every map, shorter
encoded keys first and equally long ones byte by byte. Two keys with one encoding are refused.
Then it is written with definite lengths and shortest heads. So the order in which a map was
assembled never shows in the bytes.
-/

namespace LazyCollections

set_option autoImplicit false

open Cbor Text

namespace Cbor

def writeString (major : Major) (content : List UInt8) : List UInt8 :=
  writeHead major content.length ++ content

/-- A negative number `n` is written as the natural number `-1 - n`. -/
def writeInteger (n : Int) : List UInt8 :=
  if 0 ≤ n then writeHead .unsigned n.toNat else writeHead .negative (-1 - n).toNat

/-- Shorter encodings first, equally long ones byte by byte. -/
def compareEncoded (a b : List UInt8) : Ordering :=
  (compare a.length b.length).then (compare a b)

end Cbor

namespace Value

mutual

def write : Value → List UInt8
  | null => [initialByte .simple 22]
  | bool b => [initialByte .simple (if b then 21 else 20)]
  | integer n => writeInteger n.toInt
  | bytes bs => writeString .bytes bs
  | text s => writeString .text (utf8 s)
  | array items => writeHead .array items.length ++ writeItems items
  | map entries => writeHead .map entries.length ++ writeEntries entries

def writeItems : List Value → List UInt8
  | [] => []
  | v :: vs => write v ++ writeItems vs

def writeEntries : List (Value × Value) → List UInt8
  | [] => []
  | (k, v) :: es => write k ++ write v ++ writeEntries es

end

mutual

/-- The text that a refused key is reported with. -/
def inspectEncoded : Value → String
  | null => "Null"
  | bool b => inspectCall "Bool" [inspectBool b]
  | integer n => inspectCall "Integer" [inspectCall "Integer" [decimal n]]
  | bytes bs => inspectCall "Bytes" [inspectList (bs.map fun b => toString b.toNat)]
  | text s => inspectCall "Text" [quoted s]
  | array items => inspectCall "Array" [inspectList (inspectEncodedItems items)]
  | map entries => inspectCall "Map" [inspectList (inspectEncodedEntries entries)]

def inspectEncodedItems : List Value → List String
  | [] => []
  | v :: vs => inspectEncoded v :: inspectEncodedItems vs

def inspectEncodedEntries : List (Value × Value) → List String
  | [] => []
  | (k, v) :: es =>
    inspectCall "" [inspectEncoded k, inspectEncoded v] :: inspectEncodedEntries es

end

def encodedOrder (entries : List (Value × Value)) : Except CodecError Value :=
  let keyed := entries.map fun e => (e.1.write, e)
  let sorted := StableSort.sortBy (fun a b => (compareEncoded a.1 b.1).isLE) keyed
  match StableSort.repeated? (fun a b => a.1 == b.1) sorted with
  | some (_, key, _) => .error (.duplicateKey key.inspectEncoded)
  | none => .ok (map (sorted.map (·.2)))

mutual

/-- The value with the entries of every map in the order in which they are written. -/
def toEncodedOrder : Value → Except CodecError Value
  | array items => return array (← itemsToEncodedOrder items)
  | map entries => do encodedOrder (← entriesToEncodedOrder entries)
  | null => return null
  | bool b => return bool b
  | integer n => return integer n
  | bytes bs => return bytes bs
  | text s => return text s

def itemsToEncodedOrder : List Value → Except CodecError (List Value)
  | [] => return []
  | v :: vs => return (← toEncodedOrder v) :: (← itemsToEncodedOrder vs)

def entriesToEncodedOrder : List (Value × Value) → Except CodecError (List (Value × Value))
  | [] => return []
  | (k, v) :: es => do
    let entry := (← toEncodedOrder k, ← toEncodedOrder v)
    return entry :: (← entriesToEncodedOrder es)

end

def encode (v : Value) : Except CodecError (List UInt8) :=
  return (← v.toEncodedOrder).write

end Value

end LazyCollections
