/-!
# Shapes of collections

A sequence has indexed slots that may be null, a set has one element for each identity, and a
keyed collection has one element for each key.
-/

namespace LazyCollections

set_option autoImplicit false

inductive Shape where
  | sequence
  | set
  | keyed
deriving DecidableEq

namespace Shape

def all : List Shape := [sequence, set, keyed]

def name : Shape → String
  | sequence => "sequence"
  | set => "set"
  | keyed => "keyed"

def ofName? (text : String) : Option Shape :=
  all.find? fun shape => shape.name = text

theorem mem_all (shape : Shape) : shape ∈ all := by
  cases shape <;> simp [all]

@[simp] theorem ofName?_name (shape : Shape) : ofName? shape.name = some shape := by
  cases shape <;> simp [ofName?, all, name]

end Shape

end LazyCollections
