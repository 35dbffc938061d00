import LazyCollections.Queue.Operation

/-!
# Change sets

A change set says what must happen to the stored rows of one collection. It is carried out in this
order: every row is removed if it truncates, then the deletions, the updates and the insertions.
-/

namespace LazyCollections

set_option autoImplicit false

structure ElementChange (ε κ : Type) where
  slot : Slot κ
  element : ε
deriving DecidableEq

structure ElementUpdate (ε κ : Type) where
  slot : Slot κ
  previous : ε
  element : ε
deriving DecidableEq

structure ChangeSet (ε κ : Type) where
  truncate : Bool := false
  deletions : List (ElementChange ε κ) := []
  updates : List (ElementUpdate ε κ) := []
  insertions : List (ElementChange ε κ) := []
  /-- Removed elements to be deleted themselves. -/
  orphans : List ε := []
deriving DecidableEq

def ChangeSet.isEmpty {ε κ : Type} (c : ChangeSet ε κ) : Bool :=
  !c.truncate && c.deletions.isEmpty && c.updates.isEmpty && c.insertions.isEmpty

/-- The first item of each class of items with one image under `f`. -/
def distinctBy {α β : Type} [DecidableEq β] (f : α → β) : List α → List α
  | [] => []
  | x :: xs => x :: (distinctBy f xs).filter fun y => f y ≠ f x

/-- The elements whose identity is not among `live`, each identity once. -/
def unlisted {T : ElementType} (live : List T.Id) (elements : List T.Element) : List T.Element :=
  distinctBy T.idOf (elements.filter fun e => !live.contains (T.idOf e))

end LazyCollections
