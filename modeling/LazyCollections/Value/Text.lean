import LazyCollections.Text.Inspect
import LazyCollections.Value.Basic

/-!
# Values as text

`Value.display` is the diagnostic form that messages show to users; `Value.inspect` also names the
kind of every value.
-/

namespace LazyCollections

set_option autoImplicit false

open Text

def Text.decimal (n : Int64) : String :=
  toString n.toInt

namespace Value

mutual

def display : Value → String
  | null => "null"
  | bool b => inspectBool b
  | integer n => decimal n
  | bytes bs => "h'" ++ hex bs ++ "'"
  | text s => quoted s
  | array items => inspectList (displayItems items)
  | map entries => inspectMapping (displayEntries entries)

def displayItems : List Value → List String
  | [] => []
  | v :: vs => display v :: displayItems vs

def displayEntries : List (Value × Value) → List (String × String)
  | [] => []
  | (k, v) :: es => (display k, display v) :: displayEntries es

end

mutual

def inspect : Value → String
  | null => "Null"
  | bool b => inspectCall "Bool" [inspectBool b]
  | integer n => inspectCall "Integer" [decimal n]
  | bytes bs => inspectCall "Bytes" [inspectList (bs.map fun b => toString b.toNat)]
  | text s => inspectCall "Text" [quoted s]
  | array items => inspectCall "Array" [inspectList (inspectItems items)]
  | map entries => inspectCall "Map" [inspectList (inspectEntries entries)]

def inspectItems : List Value → List String
  | [] => []
  | v :: vs => inspect v :: inspectItems vs

def inspectEntries : List (Value × Value) → List String
  | [] => []
  | (k, v) :: es => inspectCall "" [inspect k, inspect v] :: inspectEntries es

end

end Value

end LazyCollections
