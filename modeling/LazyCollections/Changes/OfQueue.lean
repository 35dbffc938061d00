import LazyCollections.Changes.Basic

/-!
# Change sets of queues

Queued operations can be written without loading the collection. A clear removes every row and
drops the work collected so far. An add is an insertion. A remove takes back an insertion of the
same element, if there is one, and deletes a row otherwise. A replacement changes an insertion or
an update that is already there, and is an update otherwise.
-/

namespace LazyCollections

set_option autoImplicit false

/-- Removes the last item that passes the test and gives it back. -/
def takeLast? {α : Type} (p : α → Bool) : List α → Option (α × List α)
  | [] => none
  | x :: xs =>
    match takeLast? p xs with
    | some (y, rest) => some (y, x :: rest)
    | none => if p x then some (x, xs) else none

/-- Changes the last item that passes the test. -/
def changeLast? {α : Type} (p : α → Bool) (f : α → α) : List α → Option (List α)
  | [] => none
  | x :: xs =>
    match changeLast? p f xs with
    | some rest => some (x :: rest)
    | none => if p x then some (f x :: xs) else none

/-- The work of the operations read so far, and the stored elements that they displaced. -/
structure QueueWork (ε κ : Type) where
  changes : ChangeSet ε κ := {}
  displaced : List ε := []

namespace QueueWork

variable {T : ElementType} {K : Scalar}

/-- Whether a change is about the element `e` at `slot`. A key alone says which element is meant,
elsewhere its identity does. -/
def concerns (slot : Slot K.Carrier) (e : T.Element) (c : ElementChange T.Element K.Carrier) :
    Bool :=
  c.slot = slot &&
    match slot with
    | .key _ => true
    | _ => T.same c.element e

/-- A stored element leaves its slot. Its row needs no deletion if every row is removed anyway. -/
def delete (w : QueueWork T.Element K.Carrier) (slot : Slot K.Carrier) (e : T.Element) :
    QueueWork T.Element K.Carrier :=
  { changes :=
      if w.changes.truncate then w.changes
      else { w.changes with deletions := w.changes.deletions ++ [⟨slot, e⟩] }
    displaced := w.displaced ++ [e] }

def remove (w : QueueWork T.Element K.Carrier) (slot : Slot K.Carrier) (value : T.Element) :
    QueueWork T.Element K.Carrier :=
  match takeLast? (concerns slot value) w.changes.insertions with
  | some (_, insertions) => { w with changes := { w.changes with insertions } }
  | none =>
    match slot with
    | .key _ =>
      match takeLast? (fun u => u.slot = slot) w.changes.updates with
      | some (u, updates) =>
        delete { w with changes := { w.changes with updates } } slot u.previous
      | none => delete w slot value
    | _ => delete w slot value

def replace (w : QueueWork T.Element K.Carrier) (slot : Slot K.Carrier) (old new : T.Element) :
    QueueWork T.Element K.Carrier :=
  match changeLast? (concerns slot old) (fun c => { c with element := new })
      w.changes.insertions with
  | some insertions => { w with changes := { w.changes with insertions } }
  | none =>
    match changeLast? (fun u => u.slot = slot) (fun u => { u with element := new })
        w.changes.updates with
    | some updates => { w with changes := { w.changes with updates } }
    | none =>
      { changes := { w.changes with updates := w.changes.updates ++ [⟨slot, old, new⟩] }
        displaced := w.displaced ++ [old] }

def addOp (w : QueueWork T.Element K.Carrier) :
    QueuedOp T.Element K.Carrier → QueueWork T.Element K.Carrier
  | .clear => { w with changes := { truncate := true } }
  | .add slot value =>
    { w with changes := { w.changes with insertions := w.changes.insertions ++ [⟨slot, value⟩] } }
  | .remove slot value => w.remove slot value
  | .replace slot old new => w.replace slot old new

def written (w : QueueWork T.Element K.Carrier) : List T.Id :=
  w.changes.insertions.map (fun c => T.idOf c.element) ++
    w.changes.updates.map fun u => T.idOf u.element

/-- Displaced elements that the work does not write back. -/
def orphans (w : QueueWork T.Element K.Carrier) : List T.Element :=
  unlisted w.written w.displaced

def ofQueue (queue : List (QueuedOp T.Element K.Carrier)) : QueueWork T.Element K.Carrier :=
  queue.foldl addOp {}

end QueueWork

/-- The work that carries a queue out on the stored rows. -/
def ChangeSet.ofQueue {T : ElementType} {K : Scalar} (queue : List (QueuedOp T.Element K.Carrier))
    (collectOrphans : Bool) : ChangeSet T.Element K.Carrier :=
  let work := QueueWork.ofQueue queue
  if collectOrphans then { work.changes with orphans := work.orphans } else work.changes

end LazyCollections
