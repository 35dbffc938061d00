import LazyCollections.Cbor.Item
import LazyCollections.Cbor.Writer
import LazyCollections.Proofs.Cbor.Heads

/-!
# Items that are read back

What was written for a value is read back as one item, whatever follows it, unless the value is
nested deeper than the reader goes; then nothing is read. So two values that are written alike are
equal. Lengths have to fit eight bytes, which they do whenever the length of all that was written
does.
-/

namespace LazyCollections

set_option autoImplicit false

open Cbor Text

namespace Value

mutual

def toItem : Value → Item
  | null => .null
  | bool b => .bool b
  | integer n => .integer n.toInt
  | bytes bs => .bytes bs
  | text s => .text s
  | array items => .array (toItems items)
  | map entries => .map (toEntryItems entries)

def toItems : List Value → List Item
  | [] => []
  | v :: vs => toItem v :: toItems vs

def toEntryItems : List (Value × Value) → List (Item × Item)
  | [] => []
  | (k, v) :: es => (toItem k, toItem v) :: toEntryItems es

end

mutual

/-- The strings, arrays and maps of a value, also inside keys, have lengths of 64 bits, as they do
in every memory. -/
def Addressable : Value → Prop
  | bytes bs => bs.length < UInt64.size
  | text s => (utf8 s).length < UInt64.size
  | array items => items.length < UInt64.size ∧ AddressableItems items
  | map entries => entries.length < UInt64.size ∧ AddressableEntries entries
  | _ => True

def AddressableItems : List Value → Prop
  | [] => True
  | v :: vs => Addressable v ∧ AddressableItems vs

def AddressableEntries : List (Value × Value) → Prop
  | [] => True
  | (k, v) :: es => Addressable k ∧ Addressable v ∧ AddressableEntries es

end

end Value

namespace Cbor

theorem length_writeHead_pos (major : Major) (n : Nat) : 0 < (writeHead major n).length := by
  unfold writeHead
  split
  · simp
  · split
    · simp
    · split
      · simp
      · split <;> simp

theorem length_write_pos (v : Value) : 0 < v.write.length := by
  cases v with
  | null => simp [Value.write]
  | bool b => simp [Value.write]
  | integer n =>
    rw [Value.write, writeInteger]
    split
    · exact length_writeHead_pos _ _
    · exact length_writeHead_pos _ _
  | bytes bs =>
    have := length_writeHead_pos .bytes bs.length
    simp only [Value.write, writeString, List.length_append]
    omega
  | text s =>
    have := length_writeHead_pos .text (utf8 s).length
    simp only [Value.write, writeString, List.length_append]
    omega
  | array items =>
    have := length_writeHead_pos .array items.length
    simp only [Value.write, List.length_append]
    omega
  | map entries =>
    have := length_writeHead_pos .map entries.length
    simp only [Value.write, List.length_append]
    omega

theorem length_le_length_writeItems (vs : List Value) :
    vs.length ≤ (Value.writeItems vs).length := by
  induction vs with
  | nil => simp
  | cons v vs ih =>
    have := length_write_pos v
    simp only [Value.writeItems, List.length_append, List.length_cons]
    omega

theorem length_le_length_writeEntries (es : List (Value × Value)) :
    es.length ≤ (Value.writeEntries es).length := by
  induction es with
  | nil => simp
  | cons e es ih =>
    have := length_write_pos e.1
    simp only [Value.writeEntries, List.length_append, List.length_cons]
    omega

mutual

theorem addressable_of_length_write {v : Value} (h : v.write.length < UInt64.size) :
    v.Addressable := by
  cases v with
  | null => trivial
  | bool b => trivial
  | integer n => trivial
  | bytes bs =>
    rw [Value.write, writeString, List.length_append] at h
    exact Nat.lt_of_le_of_lt (Nat.le_add_left _ _) h
  | text s =>
    rw [Value.write, writeString, List.length_append] at h
    exact Nat.lt_of_le_of_lt (Nat.le_add_left _ _) h
  | array items =>
    rw [Value.write, List.length_append] at h
    have hcount := length_le_length_writeItems items
    exact ⟨by omega, addressableItems_of_length_writeItems (by omega)⟩
  | map entries =>
    rw [Value.write, List.length_append] at h
    have hcount := length_le_length_writeEntries entries
    exact ⟨by omega, addressableEntries_of_length_writeEntries (by omega)⟩

theorem addressableItems_of_length_writeItems {vs : List Value}
    (h : (Value.writeItems vs).length < UInt64.size) : Value.AddressableItems vs := by
  cases vs with
  | nil => trivial
  | cons v vs =>
    rw [Value.writeItems, List.length_append] at h
    exact ⟨addressable_of_length_write (by omega),
      addressableItems_of_length_writeItems (by omega)⟩

theorem addressableEntries_of_length_writeEntries {es : List (Value × Value)}
    (h : (Value.writeEntries es).length < UInt64.size) : Value.AddressableEntries es := by
  cases es with
  | nil => trivial
  | cons e es =>
    obtain ⟨k, v⟩ := e
    rw [Value.writeEntries, List.length_append, List.length_append] at h
    exact ⟨addressable_of_length_write (by omega), addressable_of_length_write (by omega),
      addressableEntries_of_length_writeEntries (by omega)⟩

end

variable (inner : Option (Reader Item)) (rest : List UInt8)

theorem readItemWith_simple {code : Nat} (h : code < 24) :
    readItemWith inner (initialByte .simple code :: rest) =
      (Item.ofSimple? code).map fun item => (item, rest) := by
  have hhead : readHead (initialByte .simple code :: rest) = some (.simple code, rest) := by
    rw [readHead_initialByte .simple (by omega), readArgument, if_pos h]
  rw [readItemWith, hhead]
  cases hitem : Item.ofSimple? code <;> simp [readContent, hitem]

theorem readItemWith_integer (n : Int64) :
    readItemWith inner (writeInteger n.toInt ++ rest) = some (.integer n.toInt, rest) := by
  have hlow : -9223372036854775808 ≤ n.toInt := Int64.minValue_le_toInt n
  have hhigh : n.toInt ≤ 9223372036854775807 := Int64.toInt_le n
  unfold writeInteger
  split
  next hsign =>
    have hsize : n.toInt.toNat < UInt64.size := by
      rw [UInt64.size]
      omega
    have hvalue : (n.toInt.toNat : Int) = n.toInt := Int.toNat_of_nonneg hsign
    rw [readItemWith, readHead_writeHead (by decide) hsize]
    exact congrArg (fun m => some (Item.integer m, rest)) hvalue
  next hsign =>
    have hsize : (-1 - n.toInt).toNat < UInt64.size := by
      rw [UInt64.size]
      omega
    have hvalue : -1 - ((-1 - n.toInt).toNat : Int) = n.toInt := by omega
    rw [readItemWith, readHead_writeHead (by decide) hsize]
    exact congrArg (fun m => some (Item.integer m, rest)) hvalue

theorem readItemWith_bytes {bs : List UInt8} (h : bs.length < UInt64.size) :
    readItemWith inner (writeString .bytes bs ++ rest) = some (.bytes bs, rest) := by
  rw [readItemWith, writeString, List.append_assoc, readHead_writeHead (by decide) h]
  simp only [readContent, Option.bind_eq_bind, Option.bind_some, takeBytes_append rfl]
  rfl

theorem readItemWith_text {s : String} (h : (utf8 s).length < UInt64.size) :
    readItemWith inner (writeString .text (utf8 s) ++ rest) = some (.text s, rest) := by
  rw [readItemWith, writeString, List.append_assoc, readHead_writeHead (by decide) h]
  simp only [readContent, Option.bind_eq_bind, Option.bind_some, takeBytes_append rfl, ofUtf8?_utf8]
  rfl

theorem readItemWith_array {content : List UInt8} {n : Nat} (h : n < UInt64.size) :
    readItemWith inner (writeHead .array n ++ content) = do
      let (items, rest) ← readMany (← inner) n content
      return (.array items, rest) := by
  rw [readItemWith, readHead_writeHead (by decide) h]
  rfl

theorem readItemWith_map {content : List UInt8} {n : Nat} (h : n < UInt64.size) :
    readItemWith inner (writeHead .map n ++ content) = do
      let (entries, rest) ← readMany (readPair (← inner) (← inner)) n content
      return (.map entries, rest) := by
  rw [readItemWith, readHead_writeHead (by decide) h]
  cases inner <;> rfl

theorem readMany_writeItems {item : Reader Item} {limit : Nat}
    (hitem : ∀ v : Value, v.Addressable → ∀ rest,
      item (v.write ++ rest) = if v.depth ≤ limit then some (v.toItem, rest) else none)
    (vs : List Value) (h : Value.AddressableItems vs) (rest : List UInt8) :
    readMany item vs.length (Value.writeItems vs ++ rest) =
      if Value.depthOfItems vs ≤ limit then some (Value.toItems vs, rest) else none := by
  induction vs with
  | nil => simp [readMany, Value.writeItems, Value.depthOfItems, Value.toItems]
  | cons v vs ih =>
    rw [Value.writeItems, List.append_assoc, List.length_cons, readMany, hitem v h.1,
      Value.depthOfItems, Value.toItems]
    simp only [Nat.max_le]
    by_cases hv : v.depth ≤ limit
    · by_cases hvs : Value.depthOfItems vs ≤ limit
      · simp [hv, hvs, ih h.2]
      · simp [hv, hvs, ih h.2]
    · simp [hv]

theorem readMany_writeEntries {item : Reader Item} {limit : Nat}
    (hitem : ∀ v : Value, v.Addressable → ∀ rest,
      item (v.write ++ rest) = if v.depth ≤ limit then some (v.toItem, rest) else none)
    (es : List (Value × Value)) (h : Value.AddressableEntries es) (rest : List UInt8) :
    readMany (readPair item item) es.length (Value.writeEntries es ++ rest) =
      if Value.depthOfEntries es ≤ limit then some (Value.toEntryItems es, rest) else none := by
  induction es with
  | nil => simp [readMany, Value.writeEntries, Value.depthOfEntries, Value.toEntryItems]
  | cons e es ih =>
    obtain ⟨k, v⟩ := e
    obtain ⟨hkey, hvalue, hrest⟩ := h
    rw [Value.writeEntries, List.append_assoc, List.append_assoc, List.length_cons, readMany,
      readPair, hitem k hkey, Value.depthOfEntries, Value.toEntryItems]
    simp only [Nat.max_le]
    by_cases hk : k.depth ≤ limit
    · by_cases hv : v.depth ≤ limit
      · by_cases hes : Value.depthOfEntries es ≤ limit
        · simp [hk, hv, hes, hitem v hvalue, ih hrest]
        · simp [hk, hv, hes, hitem v hvalue, ih hrest]
      · simp [hk, hv, hitem v hvalue]
    · simp [hk]

/-- The reader of what is nested inside an item of the given depth. -/
def innerReader : Nat → Option (Reader Item)
  | 0 => none
  | depth + 1 => some (readItem depth)

theorem readItem_eq (limit : Nat) : readItem limit = readItemWith (innerReader limit) := by
  cases limit <;> rfl

/-- A reader of the given depth reads back exactly the values that are nested no deeper. -/
theorem readItem_write (limit : Nat) (v : Value) (h : v.Addressable) (rest : List UInt8) :
    readItem limit (v.write ++ rest) =
      if v.depth ≤ limit then some (v.toItem, rest) else none := by
  -- What is nested inside is read with a smaller limit, so the induction is on the limit for all
  -- values at once.
  induction limit using Nat.strongRecOn generalizing v rest with
  | ind limit ih =>
    rw [readItem_eq]
    cases v with
    | null => exact readItemWith_simple _ _ (by decide)
    | bool b => cases b <;> exact readItemWith_simple _ _ (by decide)
    | integer n =>
      rw [Value.write, readItemWith_integer]
      simp [Value.depth, Value.toItem]
    | bytes bs =>
      rw [Value.write, readItemWith_bytes _ _ h]
      simp [Value.depth, Value.toItem]
    | text s =>
      rw [Value.write, readItemWith_text _ _ h]
      simp [Value.depth, Value.toItem]
    | array items =>
      rw [Value.write, List.append_assoc, readItemWith_array _ h.1, Value.depth, Value.toItem]
      cases limit with
      | zero => rfl
      | succ limit =>
        simp only [innerReader, Option.bind_eq_bind, Option.bind_some,
          readMany_writeItems (ih limit (by omega)) items h.2 rest, Nat.add_le_add_iff_right]
        split <;> rfl
    | map entries =>
      rw [Value.write, List.append_assoc, readItemWith_map _ h.1, Value.depth, Value.toItem]
      cases limit with
      | zero => rfl
      | succ limit =>
        simp only [innerReader, Option.bind_eq_bind, Option.bind_some,
          readMany_writeEntries (ih limit (by omega)) entries h.2 rest,
          Nat.add_le_add_iff_right]
        split <;> rfl

end Cbor

namespace Value

mutual

theorem toItem_injective {v w : Value} (h : v.toItem = w.toItem) : v = w := by
  cases v <;> cases w <;> simp [toItem] at h
  case null.null => rfl
  case array.array vs ws => exact congrArg array (toItems_injective h)
  case map.map es fs => exact congrArg map (toEntryItems_injective h)
  case integer.integer m n => exact congrArg integer (Int64.toInt_inj.mp h)
  all_goals rw [h]

theorem toItems_injective {vs ws : List Value} (h : toItems vs = toItems ws) : vs = ws := by
  cases vs with
  | nil =>
    cases ws with
    | nil => rfl
    | cons w ws => exact nomatch h
  | cons v vs =>
    cases ws with
    | nil => exact nomatch h
    | cons w ws =>
      obtain ⟨hhead, htail⟩ := List.cons.inj h
      rw [toItem_injective hhead, toItems_injective htail]

theorem toEntryItems_injective {es fs : List (Value × Value)}
    (h : toEntryItems es = toEntryItems fs) : es = fs := by
  cases es with
  | nil =>
    cases fs with
    | nil => rfl
    | cons f fs => exact nomatch h
  | cons e es =>
    cases fs with
    | nil => exact nomatch h
    | cons f fs =>
      obtain ⟨k, v⟩ := e
      obtain ⟨l, w⟩ := f
      obtain ⟨hhead, htail⟩ := List.cons.inj h
      obtain ⟨hkey, hvalue⟩ := Prod.mk.inj hhead
      rw [toItem_injective hkey, toItem_injective hvalue, toEntryItems_injective htail]

end

/-- A reader that goes deep enough for both values reads one item from the bytes. -/
theorem write_injective {v w : Value} (hv : v.Addressable) (hw : w.Addressable)
    (h : v.write = w.write) : v = w := by
  have hreadV := readItem_write (max v.depth w.depth) v hv []
  have hreadW := readItem_write (max v.depth w.depth) w hw []
  rw [if_pos (Nat.le_max_left _ _)] at hreadV
  rw [if_pos (Nat.le_max_right _ _)] at hreadW
  rw [h, hreadW] at hreadV
  exact (toItem_injective (Prod.mk.inj (Option.some.inj hreadV)).1).symm

end Value

end LazyCollections
