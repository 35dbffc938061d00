import Mathlib.Algebra.Group.Nat.Defs
import LazyCollections.Cbor.Head

/-!
# Heads that are read back

A head that was written is read back, whatever follows it. The reader tells the forms apart by the
initial byte, and the bytes of the argument make up the number that was split into them.
-/

namespace LazyCollections.Cbor

set_option autoImplicit false

@[simp] theorem Major.ofCode_code (major : Major) : ofCode major.code = major := by
  cases major <;> rfl

theorem Major.code_lt (major : Major) : major.code < 8 := by
  cases major <;> decide

@[simp] theorem length_toBigEndian (width n : Nat) : (toBigEndian width n).length = width := by
  induction width generalizing n with
  | zero => rfl
  | succ width ih => simp [toBigEndian, ih]

theorem ofBigEndian_toBigEndian {width n : Nat} (h : n < 256 ^ width) :
    ofBigEndian (toBigEndian width n) = n := by
  induction width generalizing n with
  | zero => simp_all [toBigEndian, ofBigEndian]
  | succ width ih =>
    have hlow : n / 256 < 256 ^ width := by
      rw [Nat.pow_succ] at h
      exact Nat.div_lt_of_lt_mul (by omega)
    have hsplit : ofBigEndian (toBigEndian (width + 1) n) =
        256 * ofBigEndian (toBigEndian width (n / 256)) + n % 256 := by
      simp [toBigEndian, ofBigEndian]
    rw [hsplit, ih hlow]
    omega

theorem takeBytes_append {n : Nat} {content : List UInt8} (h : content.length = n)
    (rest : List UInt8) : takeBytes n (content ++ rest) = some (content, rest) := by
  subst h
  simp [takeBytes]

theorem takeBytes_eq_some_iff {n : Nat} {bytes content rest : List UInt8} :
    takeBytes n bytes = some (content, rest) ↔ content.length = n ∧ content ++ rest = bytes := by
  constructor
  · intro h
    unfold takeBytes at h
    split at h
    next hn =>
      rw [List.splitAt_eq] at h
      obtain ⟨rfl, rfl⟩ := Prod.mk.inj (Option.some.inj h)
      exact ⟨List.length_take_of_le hn, List.take_append_drop n bytes⟩
    next => cases h
  · rintro ⟨hlength, rfl⟩
    exact takeBytes_append hlength rest

theorem readWide_toBigEndian {major : Major} (hmajor : major ≠ .simple) {width n : Nat}
    (h : n < 256 ^ width) (rest : List UInt8) :
    readWide major width (toBigEndian width n ++ rest) = some (.item major n, rest) := by
  simp only [readWide, takeBytes_append (length_toBigEndian width n), Option.bind_eq_bind,
    Option.bind_some, ofBigEndian_toBigEndian h]
  cases major <;> simp_all

theorem readHead_initialByte (major : Major) {low : Nat} (h : low < 32) (rest : List UInt8) :
    readHead (initialByte major low :: rest) = readArgument major low rest := by
  have hcode := major.code_lt
  have hbyte : (initialByte major low).toNat = 32 * major.code + low := by
    simp only [initialByte, UInt8.toNat_ofNat']
    omega
  simp only [readHead, hbyte]
  rw [show (32 * major.code + low) / 32 = major.code by omega,
    show (32 * major.code + low) % 32 = low by omega, Major.ofCode_code]

theorem readHead_writeHead {major : Major} (hmajor : major ≠ .simple) {n : Nat}
    (hn : n < UInt64.size) (rest : List UInt8) :
    readHead (writeHead major n ++ rest) = some (.item major n, rest) := by
  unfold writeHead
  split
  next h =>
    rw [List.cons_append, List.nil_append, readHead_initialByte major (by omega)]
    unfold readArgument
    cases major <;> simp_all
  next =>
    split
    next h =>
      rw [List.cons_append, readHead_initialByte major (by omega)]
      exact readWide_toBigEndian hmajor h rest
    next =>
      split
      next h =>
        rw [List.cons_append, readHead_initialByte major (by omega)]
        exact readWide_toBigEndian hmajor h rest
      next =>
        split
        next h =>
          rw [List.cons_append, readHead_initialByte major (by omega)]
          exact readWide_toBigEndian hmajor h rest
        next =>
          rw [List.cons_append, readHead_initialByte major (by omega)]
          exact readWide_toBigEndian hmajor hn rest

end LazyCollections.Cbor
