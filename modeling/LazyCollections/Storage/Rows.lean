import LazyCollections.Shape
import LazyCollections.Slot

/-!
# Stored rows

The rows of one stored collection, and the work that is done on them. Rows of a set, and rows that
are deleted without a position, are told apart by their identity, a value that `identify` finds for
them. A keyed collection has one row for each key, and its rows keep the order in which their keys
were first written.
-/

namespace LazyCollections

set_option autoImplicit false

inductive StoredRows where
  | sequence (rows : List Value)
  | set (rows : List Value)
  | keyed (rows : List (Value × Value))
deriving DecidableEq

/-- Work on the rows of one collection, in the order in which it is done. -/
structure RowWork where
  truncate : Bool := false
  deletions : List (RowSlot × Value) := []
  updates : List (RowSlot × Value) := []
  insertions : List (RowSlot × Value) := []
deriving DecidableEq

def RowWork.rowCount (work : RowWork) : Nat :=
  work.deletions.length + work.updates.length + work.insertions.length

namespace StoredRows

def empty : Shape → StoredRows
  | .sequence => sequence []
  | .set => set []
  | .keyed => keyed []

def size : StoredRows → Nat
  | sequence rows => rows.length
  | set rows => rows.length
  | keyed rows => rows.length

def isEmpty (stored : StoredRows) : Bool :=
  stored.size = 0

def cleared : StoredRows → StoredRows
  | sequence _ => sequence []
  | set _ => set []
  | keyed _ => keyed []

def rows : StoredRows → List (RowSlot × Value)
  | sequence rows => rows.zipIdx.map fun r => (.index r.2, r.1)
  | set rows => rows.map fun v => (.unordered, v)
  | keyed rows => rows.map fun r => (.key r.1, r.2)

/-- Puts a row at an index, after as many null rows as it takes to reach it. -/
def writeAt (rows : List Value) (i : Nat) (v : Value) : List Value :=
  (rows ++ List.replicate (i + 1 - rows.length) Value.null).set i v

def writeKey (k v : Value) : List (Value × Value) → List (Value × Value)
  | [] => [(k, v)]
  | row :: rows => if row.1 = k then (row.1, v) :: rows else row :: writeKey k v rows

/-- Deletes a row. An indexed row becomes null, so that the rows after it keep their indexes. -/
def delete (identify : Value → Value) (slot : RowSlot) (v : Value) : StoredRows → StoredRows
  | sequence rows =>
    match slot with
    | .index i => sequence (rows.set i .null)
    | _ => sequence (rows.eraseP fun r => !r.isNull && identify r == identify v)
  | set rows => set (rows.filter fun r => identify r != identify v)
  | keyed rows =>
    match slot with
    | .key k => keyed (rows.filter fun r => r.1 != k)
    | _ => keyed rows

/-- Writes a row. A set keeps the row that has the identity already. -/
def write (identify : Value → Value) (slot : RowSlot) (v : Value) : StoredRows → StoredRows
  | sequence rows =>
    match slot with
    | .index i => sequence (writeAt rows i v)
    | _ => sequence (rows ++ [v])
  | set rows =>
    if rows.any fun r => identify r == identify v then set rows else set (rows ++ [v])
  | keyed rows =>
    match slot with
    | .key k => keyed (writeKey k v rows)
    | _ => keyed rows

def dropTrailingNulls : List Value → List Value
  | [] => []
  | v :: vs =>
    match dropTrailingNulls vs with
    | [] => if v.isNull then [] else [v]
    | rest => v :: rest

/-- Null rows at the end of a sequence do not count. -/
def trimmed : StoredRows → StoredRows
  | sequence rows => sequence (dropTrailingNulls rows)
  | other => other

/-- Does the work: everything is removed if it truncates, then rows are deleted, then written. -/
def apply (identify : Value → Value) (work : RowWork) (stored : StoredRows) : StoredRows :=
  let kept := if work.truncate then stored.cleared else stored
  let left := work.deletions.foldl (fun s r => s.delete identify r.1 r.2) kept
  let written :=
    (work.updates ++ work.insertions).foldl (fun s r => s.write identify r.1 r.2) left
  written.trimmed

end StoredRows

end LazyCollections
