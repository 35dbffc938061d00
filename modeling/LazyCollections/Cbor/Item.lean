import LazyCollections.Cbor.Head
import LazyCollections.Text.Utf8

/-!
# Reading items

`readItem depth` reads one item in any of its encoded forms, where arrays, maps and tags may be
nested at most `depth` deep. Nothing is said here about the bytes after the item.
-/

namespace LazyCollections.Cbor

set_option autoImplicit false

open Text

/-- An item as it was written: integers of 64 bits and a sign, tags, and floats, whose value is
not kept. -/
inductive Item where
  | null
  | bool (b : Bool)
  | integer (n : Int)
  | bytes (bs : List UInt8)
  | text (s : String)
  | array (items : List Item)
  | map (entries : List (Item × Item))
  | tag (number : Nat) (content : Item)
  | float

/-- The chunks of an open string up to its break. Open strings may stand inside it, and their
chunks belong to it. -/
def readChunks (major : Major) : (fuel nesting : Nat) → Reader (List (List UInt8))
  | 0, _, _ => none
  | fuel + 1, nesting, bytes => do
    let (head, rest) ← readHead bytes
    match head with
    | .breakMark =>
      if nesting = 0 then return ([], rest) else readChunks major fuel (nesting - 1) rest
    | .openEnded m => if m = major then readChunks major fuel (nesting + 1) rest else none
    | .item m n =>
      if m = major then do
        let (chunk, rest) ← takeBytes n rest
        let (chunks, rest) ← readChunks major fuel nesting rest
        return (chunk :: chunks, rest)
      else none
    | _ => none

def readOpenString (major : Major) : Reader (List (List UInt8)) := fun bytes =>
  readChunks major (bytes.length + 1) 0 bytes

variable {α β : Type}

def readPair (first : Reader α) (second : Reader β) : Reader (α × β) := fun bytes => do
  let (a, rest) ← first bytes
  let (b, rest) ← second rest
  return ((a, b), rest)

def readMany (item : Reader α) : Nat → Reader (List α)
  | 0, bytes => some ([], bytes)
  | n + 1, bytes => do
    let (a, rest) ← item bytes
    let (more, rest) ← readMany item n rest
    return (a :: more, rest)

/-- Items up to a break. Every item takes at least one byte, so the fuel is the number of bytes. -/
def readUntilBreak (item : Reader α) : (fuel : Nat) → Reader (List α)
  | 0, _ => none
  | fuel + 1, bytes =>
    match readHead bytes with
    | some (.breakMark, rest) => some ([], rest)
    | _ => do
      let (a, rest) ← item bytes
      let (more, rest) ← readUntilBreak item fuel rest
      return (a :: more, rest)

def readOpenList (item : Reader α) : Reader (List α) := fun bytes =>
  readUntilBreak item (bytes.length + 1) bytes

/-- A number that follows tag 2 or tag 3 as at most sixteen bytes. It is an integer if its
magnitude fits 64 bits; a wider one stays a tagged string, unless it is negative and needs more
than 127 bits. The outer option says whether the bytes after the tag have this form. -/
def readBigInteger? (tag : Nat) (bytes : List UInt8) : Option (Option (Item × List UInt8)) :=
  if tag = 2 ∨ tag = 3 then
    match readHead bytes with
    | some (.item .bytes length, rest) =>
      if length ≤ 16 then
        some do
          let (digits, rest) ← takeBytes length rest
          let n := ofBigEndian digits
          if n < UInt64.size then return (.integer (if tag = 2 then n else -1 - n), rest)
          else if tag = 3 ∧ 1 <<< 127 ≤ n then none
          else return (.tag tag (.bytes digits), rest)
      else none
    | _ => none
  else none

def Item.ofSimple? : Nat → Option Item
  | 20 => some (.bool false)
  | 21 => some (.bool true)
  | 22 => some .null
  | 23 => some .null
  | _ => none

/-- Reads what follows the head of an item. What is nested inside is read by `inner`; without
`inner` nothing may be nested further. -/
def readContent (inner : Option (Reader Item)) (head : Head) : Reader Item := fun rest =>
  match head with
  | .item .unsigned n => return (.integer n, rest)
  | .item .negative n => return (.integer (-1 - n), rest)
  | .item .bytes n => do
    let (content, rest) ← takeBytes n rest
    return (.bytes content, rest)
  | .openEnded .bytes => do
    let (chunks, rest) ← readOpenString .bytes rest
    return (.bytes chunks.flatten, rest)
  | .item .text n => do
    let (content, rest) ← takeBytes n rest
    return (.text (← ofUtf8? content), rest)
  | .openEnded .text => do
    let (chunks, rest) ← readOpenString .text rest
    return (.text (String.join (← chunks.mapM ofUtf8?)), rest)
  | .item .array n => do
    let (items, rest) ← readMany (← inner) n rest
    return (.array items, rest)
  | .openEnded .array => do
    let (items, rest) ← readOpenList (← inner) rest
    return (.array items, rest)
  | .item .map n => do
    let item ← inner
    let (entries, rest) ← readMany (readPair item item) n rest
    return (.map entries, rest)
  | .openEnded .map => do
    let item ← inner
    let (entries, rest) ← readOpenList (readPair item item) rest
    return (.map entries, rest)
  | .item .tag number =>
    match readBigInteger? number rest with
    | some result => result
    | none => do
      let (content, rest) ← (← inner) rest
      return (.tag number content, rest)
  | .simple code => return (← Item.ofSimple? code, rest)
  | .float => return (.float, rest)
  | _ => none

def readItemWith (inner : Option (Reader Item)) : Reader Item := fun bytes => do
  let (head, rest) ← readHead bytes
  readContent inner head rest

def readItem : (depth : Nat) → Reader Item
  | 0 => readItemWith none
  | depth + 1 => readItemWith (some (readItem depth))

end LazyCollections.Cbor
