/-!
# Sorting that keeps the order of equal items

`sortBy le` puts a list into the order `le`, and items that `le` does not tell apart stay in the
order in which they came. It computes the `List.insertionSort` of Mathlib, which what runs does not
import.
-/

namespace LazyCollections.StableSort

set_option autoImplicit false

variable {α : Type}

/-- Puts `x` before the first item that it may precede. -/
def insertBy (le : α → α → Bool) (x : α) : List α → List α
  | [] => [x]
  | y :: ys => if le x y then x :: y :: ys else y :: insertBy le x ys

def sortBy (le : α → α → Bool) (xs : List α) : List α :=
  xs.foldr (insertBy le) []

/-- The first item that is followed at once by one of the same class. -/
def repeated? (same : α → α → Bool) : List α → Option α
  | x :: y :: rest => if same x y then some x else repeated? same (y :: rest)
  | _ => none

end LazyCollections.StableSort
