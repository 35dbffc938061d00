/-!
# Heads of encoded items

Every item starts with a byte that holds its major type in the upper three bits. The lower five
bits hold a small argument, or say that the argument follows in one, two, four or eight bytes with
the most significant one first, or that the item stays open until a break.

Writing always takes the shortest form, reading takes all of them.
-/

namespace LazyCollections.Cbor

set_option autoImplicit false

/-- A step of reading: what was read and the bytes after it. -/
abbrev Reader (α : Type) := List UInt8 → Option (α × List UInt8)

inductive Major where
  | unsigned
  | negative
  | bytes
  | text
  | array
  | map
  | tag
  | simple
deriving DecidableEq

def Major.code : Major → Nat
  | unsigned => 0
  | negative => 1
  | bytes => 2
  | text => 3
  | array => 4
  | map => 5
  | tag => 6
  | simple => 7

def Major.ofCode : Nat → Major
  | 0 => unsigned
  | 1 => negative
  | 2 => bytes
  | 3 => text
  | 4 => array
  | 5 => map
  | 6 => tag
  | _ => simple

def Major.canStayOpen : Major → Bool
  | bytes | text | array | map => true
  | unsigned | negative | tag | simple => false

inductive Head where
  /-- An item with its argument: a number, a length or a tag. -/
  | item (major : Major) (argument : Nat)
  /-- An item that ends at a break. -/
  | openEnded (major : Major)
  | simple (code : Nat)
  | float
  | breakMark
deriving DecidableEq

def ofBigEndian (bs : List UInt8) : Nat :=
  bs.foldl (fun n b => 256 * n + b.toNat) 0

def toBigEndian : (width : Nat) → Nat → List UInt8
  | 0, _ => []
  | width + 1, n => toBigEndian width (n / 256) ++ [UInt8.ofNat (n % 256)]

def initialByte (major : Major) (low : Nat) : UInt8 :=
  UInt8.ofNat (32 * major.code + low)

/-- The shortest head. Lengths and numbers fit eight bytes. -/
def writeHead (major : Major) (n : Nat) : List UInt8 :=
  if n < 24 then [initialByte major n]
  else if n < UInt8.size then initialByte major 24 :: toBigEndian 1 n
  else if n < UInt16.size then initialByte major 25 :: toBigEndian 2 n
  else if n < UInt32.size then initialByte major 26 :: toBigEndian 4 n
  else initialByte major 27 :: toBigEndian 8 n

def takeBytes (n : Nat) : Reader (List UInt8) := fun bytes =>
  if n ≤ bytes.length then some (bytes.splitAt n) else none

/-- The head whose argument follows in `width` bytes. -/
def readWide (major : Major) (width : Nat) : Reader Head := fun bytes => do
  let (digits, rest) ← takeBytes width bytes
  match major with
  | .simple => return (if width = 1 then .simple (ofBigEndian digits) else .float, rest)
  | _ => return (.item major (ofBigEndian digits), rest)

def readArgument (major : Major) (low : Nat) : Reader Head := fun bytes =>
  if low < 24 then
    match major with
    | .simple => some (.simple low, bytes)
    | _ => some (.item major low, bytes)
  else if low = 24 then readWide major 1 bytes
  else if low = 25 then readWide major 2 bytes
  else if low = 26 then readWide major 4 bytes
  else if low = 27 then readWide major 8 bytes
  else if low = 31 then
    if major = .simple then some (.breakMark, bytes)
    else if major.canStayOpen then some (.openEnded major, bytes)
    else none
  else none

def readHead : Reader Head
  | [] => none
  | b :: bytes => readArgument (Major.ofCode (b.toNat / 32)) (b.toNat % 32) bytes

end LazyCollections.Cbor
