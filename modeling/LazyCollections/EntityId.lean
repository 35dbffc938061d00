import LazyCollections.Text.Inspect

/-!
# Identifiers of entities

An entity is identified by sixteen bytes. Identifiers are ordered byte by byte and shown in five
groups of hexadecimal digits.
-/

namespace LazyCollections

set_option autoImplicit false

structure EntityId where
  bytes : List UInt8
  length_bytes : bytes.length = 16

namespace EntityId

@[ext] theorem ext {a b : EntityId} (h : a.bytes = b.bytes) : a = b := by
  cases a
  cases b
  simp_all

instance : DecidableEq EntityId := fun a b =>
  decidable_of_iff (a.bytes = b.bytes) ⟨ext, fun h => h ▸ rfl⟩

instance : Ord EntityId := ⟨compareOn bytes⟩

instance : Std.TransOrd EntityId := inferInstanceAs (Std.TransCmp (compareOn bytes))

instance : Std.LawfulEqOrd EntityId where
  compare_self {a} := show compare a.bytes a.bytes = .eq from Std.ReflCmp.compare_self
  eq_of_compare {a b} h :=
    ext (Std.LawfulEqCmp.eq_of_compare (show compare a.bytes b.bytes = .eq from h))

def ofBytes? (bytes : List UInt8) : Option EntityId :=
  if h : bytes.length = 16 then some ⟨bytes, h⟩ else none

def hex (id : EntityId) : String :=
  Text.hex id.bytes

def display (id : EntityId) : String :=
  "-".intercalate <| [(0, 4), (4, 2), (6, 2), (8, 2), (10, 6)].map fun group =>
    Text.hex ((id.bytes.drop group.1).take group.2)

def inspect (id : EntityId) : String :=
  Text.inspectCall "EntityId" [id.display]

theorem ofBytes?_eq_some_iff {bytes : List UInt8} {id : EntityId} :
    ofBytes? bytes = some id ↔ id.bytes = bytes := by
  unfold ofBytes?
  split
  next h => exact ⟨fun heq => by cases heq; rfl, fun heq => congrArg some (ext heq.symm)⟩
  next h => exact ⟨nofun, fun heq => absurd (heq ▸ id.length_bytes) h⟩

@[simp] theorem ofBytes?_bytes (id : EntityId) : ofBytes? id.bytes = some id :=
  ofBytes?_eq_some_iff.mpr rfl

end EntityId

end LazyCollections
