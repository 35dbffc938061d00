/-!
# Hexadecimal text

Bytes are shown with two lowercase digits each and no separator. Reading also takes capital
digits and refuses an odd number of them.
-/

namespace LazyCollections.Text

set_option autoImplicit false

def hexDigit (n : Nat) : Char :=
  if n < 10 then Char.ofNat ('0'.toNat + n) else Char.ofNat ('a'.toNat + (n - 10))

def hexOfByte (b : UInt8) : List Char :=
  [hexDigit (b.toNat / 16), hexDigit (b.toNat % 16)]

def hex (bytes : List UInt8) : String :=
  String.ofList (bytes.flatMap hexOfByte)

/-- Lowercase digits of a number, without leading zeros. -/
def hexOfNat (n : Nat) : String :=
  String.ofList (Nat.toDigits 16 n)

def hexValue? (c : Char) : Option Nat :=
  if '0' ≤ c ∧ c ≤ '9' then some (c.toNat - '0'.toNat)
  else if 'a' ≤ c ∧ c ≤ 'f' then some (c.toNat - 'a'.toNat + 10)
  else if 'A' ≤ c ∧ c ≤ 'F' then some (c.toNat - 'A'.toNat + 10)
  else none

def bytesOfHexDigits? : List Char → Option (List UInt8)
  | [] => some []
  | [_] => none
  | high :: low :: rest => do
    let h ← hexValue? high
    let l ← hexValue? low
    let bytes ← bytesOfHexDigits? rest
    return UInt8.ofNat (16 * h + l) :: bytes

def bytesOfHex? (text : String) : Option (List UInt8) :=
  bytesOfHexDigits? text.toList

@[simp] theorem toList_hex (bytes : List UInt8) : (hex bytes).toList = bytes.flatMap hexOfByte := by
  simp [hex]

theorem hexValue?_hexDigit {n : Nat} (h : n < 16) : hexValue? (hexDigit n) = some n := by
  have all : ∀ m : Fin 16, hexValue? (hexDigit m) = some m.val := by decide
  exact all ⟨n, h⟩

theorem bytesOfHexDigits?_flatMap (bytes : List UInt8) :
    bytesOfHexDigits? (bytes.flatMap hexOfByte) = some bytes := by
  induction bytes with
  | nil => rfl
  | cons b bs ih =>
    have hb := b.toNat_lt
    have hsum : UInt8.ofNat (16 * (b.toNat / 16) + b.toNat % 16) = b := by
      rw [show 16 * (b.toNat / 16) + b.toNat % 16 = b.toNat by omega, UInt8.ofNat_toNat]
    simp only [List.flatMap_cons, hexOfByte, List.cons_append, List.nil_append,
      bytesOfHexDigits?, hexValue?_hexDigit (show b.toNat / 16 < 16 by omega),
      hexValue?_hexDigit (show b.toNat % 16 < 16 by omega), Option.bind_eq_bind,
      Option.bind_some, ih, hsum, Option.pure_def]

@[simp] theorem bytesOfHex?_hex (bytes : List UInt8) : bytesOfHex? (hex bytes) = some bytes := by
  simp [bytesOfHex?, bytesOfHexDigits?_flatMap]

end LazyCollections.Text
