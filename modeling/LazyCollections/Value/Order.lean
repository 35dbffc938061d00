import LazyCollections.StableSort
import LazyCollections.Value.Basic

/-!
# The canonical order of values

Values are ordered by kind first: integers, bytes, texts, arrays, maps, booleans, null. Within
bytes, texts, arrays and maps the shorter one comes first, and equally long ones are compared item
by item, an entry of a map by its key and then by its value.

`Value.ofEntries` puts entries into this order, and `Value.canonical` does so at every depth.
-/

namespace LazyCollections

set_option autoImplicit false

namespace Value

def rank : Value → Nat
  | integer _ => 0
  | bytes _ => 1
  | text _ => 2
  | array _ => 3
  | map _ => 4
  | bool _ => 5
  | null => 6

mutual

/-- The length of a text is that of its encoding, and texts of one length are compared by code
points, which is the order of their encodings. -/
def compareCanonical : Value → Value → Ordering
  | integer a, integer b => compare a b
  | bytes a, bytes b => (compare a.length b.length).then (compare a b)
  | text a, text b => (compare a.utf8ByteSize b.utf8ByteSize).then (compare a b)
  | array a, array b => (compare a.length b.length).then (compareItems a b)
  | map a, map b => (compare a.length b.length).then (compareEntries a b)
  | bool a, bool b => compare a b
  | a, b => compare a.rank b.rank

/-- The first difference decides; a list that ends first is not told apart here. -/
def compareItems : List Value → List Value → Ordering
  | a :: as, b :: bs => (compareCanonical a b).then (compareItems as bs)
  | _, _ => .eq

def compareEntries : List (Value × Value) → List (Value × Value) → Ordering
  | (k, v) :: as, (l, w) :: bs =>
    ((compareCanonical k l).then (compareCanonical v w)).then (compareEntries as bs)
  | _, _ => .eq

end

instance : Ord Value := ⟨compareCanonical⟩

def keyLe (a b : Value × Value) : Bool :=
  (compare a.1 b.1).isLE

def sortEntries (entries : List (Value × Value)) : List (Value × Value) :=
  StableSort.sortBy keyLe entries

/-- The map of the given entries, in key order; entries of equal keys keep their order. -/
def ofEntries (entries : List (Value × Value)) : Value :=
  map (sortEntries entries)

mutual

/-- The value with every map, also inside keys, in key order. -/
def canonical : Value → Value
  | array items => array (canonicalItems items)
  | map entries => map (sortEntries (canonicalEntries entries))
  | null => null
  | bool b => bool b
  | integer n => integer n
  | bytes bs => bytes bs
  | text s => text s

def canonicalItems : List Value → List Value
  | [] => []
  | v :: vs => canonical v :: canonicalItems vs

def canonicalEntries : List (Value × Value) → List (Value × Value)
  | [] => []
  | (k, v) :: es => (canonical k, canonical v) :: canonicalEntries es

end

mutual

/-- How deep arrays and maps are nested, keys included. -/
def depth : Value → Nat
  | array items => depthOfItems items + 1
  | map entries => depthOfEntries entries + 1
  | _ => 0

def depthOfItems : List Value → Nat
  | [] => 0
  | v :: vs => max (depth v) (depthOfItems vs)

def depthOfEntries : List (Value × Value) → Nat
  | [] => 0
  | (k, v) :: es => max (max (depth k) (depth v)) (depthOfEntries es)

end

end Value

end LazyCollections
