import LazyCollections.Collection.Flush
import LazyCollections.Storage.Store

/-!
# The database

A database is the store together with the persister that writes to it. The persister brings change
sets into stored form, keeps a journal of the work that it has done, and can be told to refuse the
next change.
-/

namespace LazyCollections

set_option autoImplicit false

structure AppliedWork where
  owner : EntityId
  role : Role
  work : RowWork
  orphans : Nat
deriving DecidableEq

structure Database where
  store : Store := {}
  journal : List AppliedWork := []
  refuseNext : Bool := false

namespace Database

variable {α : Type}

def onStore (question : Store → α × Store) (db : Database) : α × Database :=
  let (answer, store) := question db.store
  (answer, { db with store })

def loader : Loader Database where
  load key := onStore (Store.load key)
  size key := onStore (Store.size key)
  hasElement key id := onStore (Store.hasElement key id)
  elementAt key slot := onStore (Store.elementAt key slot)

variable {T : ElementType} {K : Scalar}

def row (slot : Slot K.Carrier) (e : T.Element) : Except Error (RowSlot × Value) :=
  return (slot.map K.toValue, ← T.externalize e)

def rowWork (changes : ChangeSet T.Element K.Carrier) : Except Error RowWork := do
  let deletions ← changes.deletions.mapM fun c => row c.slot c.element
  let updates ← changes.updates.mapM fun u => row u.slot u.element
  let insertions ← changes.insertions.mapM fun c => row c.slot c.element
  return { truncate := changes.truncate, deletions, updates, insertions }

def persister : Persister T K Database := fun owner d changes db =>
  if db.refuseNext then (.error (.sourceUnavailable .refused), { db with refuseNext := false })
  else
    match rowWork changes with
    | .error error => (.error error, db)
    | .ok work =>
      (.ok (),
        { db with
          store := db.store.apply d owner work
          journal := db.journal ++ [⟨owner, d.role, work, changes.orphans.length⟩] })

end Database

end LazyCollections
