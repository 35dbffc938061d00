import LazyCollections.Collection.Flush
import LazyCollections.Collection.LazyList
import LazyCollections.Collection.LazyMap
import LazyCollections.Collection.LazySet

/-!
# Several collections in one environment

A world holds named collections of several types, all acting in one environment. The types are
listed by codes, so that a collection can be used once the code of its types is known. A collection
that leaves the world is detached from its session.
-/

namespace LazyCollections

set_option autoImplicit false

structure Kind where
  element : ElementType
  key : Scalar

/-- A collection with the code of its types. -/
abbrev Member {κ : Type} (kinds : κ → Kind) :=
  (k : κ) × Collection (kinds k).element (kinds k).key

structure World {κ : Type} (kinds : κ → Kind) (σ : Type) where
  environment : Environment σ
  members : SortedMap String (Member kinds) := ∅

namespace World

variable {κ : Type} {kinds : κ → Kind} {σ α : Type}

def onEnvironment (f : Environment σ → Environment σ) (w : World kinds σ) : World kinds σ :=
  { w with environment := f w.environment }

def release (m : Member kinds) (w : World kinds σ) : World kinds σ :=
  match m.2.attachment with
  | some a => w.onEnvironment fun env => env.release a m.2.role
  | none => w

/-- Makes a new collection. Only after it is there, the collection of the same name is given up. -/
def create (name : String) (k : κ)
    (make : EnvironmentAction σ (Collection (kinds k).element (kinds k).key))
    (w : World kinds σ) : Except Error Unit × World kinds σ :=
  let (made, environment) := make.runOn w.environment
  match made with
  | .error error => (.error error, { w with environment })
  | .ok c =>
    let next : World kinds σ := { environment, members := w.members.insert name ⟨k, c⟩ }
    match w.members.get? name with
    | some previous => (.ok (), next.release previous)
    | none => (.ok (), next)

def drop (name : String) (w : World kinds σ) : Bool × World kinds σ :=
  match w.members.get? name with
  | some m => (true, { w with members := w.members.erase name }.release m)
  | none => (false, w)

def act (name : String) (action : (k : κ) → Action (kinds k).element (kinds k).key σ α)
    (w : World kinds σ) : Option (Except Error α × World kinds σ) :=
  match w.members.get? name with
  | none => none
  | some ⟨k, c⟩ =>
    let (result, s) := (action k).runOn ⟨c, w.environment⟩
    let members := w.members.insert name ⟨k, s.collection⟩
    some (result, { environment := s.environment, members })

end World

end LazyCollections
