import LazyCollections.Descriptor
import LazyCollections.Loader
import LazyCollections.Storage.Rows
import LazyCollections.StableSort

/-!
# The store

The store keeps the rows of collections in memory. It loads them, answers probes, and does work on
them. It learns the identities of a role's elements when it is told their type; the rows of other
roles are their own identity. It can be offline, and then it answers nothing, and it can refuse
probes, and then it knows no answer to them.
-/

namespace LazyCollections

set_option autoImplicit false

structure Store where
  collections : SortedMap CollectionKey StoredRows := ∅
  /-- How the rows of a role are identified. -/
  identities : SortedMap Role (Value → Option Value) := ∅
  /-- The sizes announced by loads, the oldest first. -/
  announced : List Nat := []
  offline : Bool := false
  probesEnabled : Bool := true
  loads : Nat := 0
  probes : Nat := 0

namespace Store

variable {α : Type}

def rows? (store : Store) (key : CollectionKey) : Option StoredRows :=
  store.collections.get? key

/-- The identity of a row, which is the row itself if no other is known. -/
def identify (store : Store) (role : Role) (v : Value) : Value :=
  match store.identities.get? role with
  | none => v
  | some find => (find v).getD v

def registerIdentity (T : ElementType) (store : Store) (role : Role) : Store :=
  { store with
    identities := store.identities.insert role fun v =>
      (T.internalize v >>= T.externalizeId).toOption }

def seed (store : Store) (key : CollectionKey) (rows : StoredRows) : Store :=
  { store with collections := store.collections.insert key rows }

def seedElements (T : ElementType) (store : Store) (d : Descriptor) (owner : EntityId)
    (elements : List T.Element) : Except Error Store := do
  let values ← elements.mapM T.externalize
  let rows := match d.shape with
    | .set => StoredRows.set values
    | _ => StoredRows.sequence values
  return (store.registerIdentity T d.role).seed ⟨d.role, owner⟩ rows

def seedEntries (T : ElementType) (K : Scalar) (store : Store) (d : Descriptor) (owner : EntityId)
    (entries : List (K.Carrier × T.Element)) : Except Error Store := do
  let rows ← entries.mapM fun e => return (K.toValue e.1, ← T.externalize e.2)
  return (store.registerIdentity T d.role).seed ⟨d.role, owner⟩ (.keyed rows)

def storedElements (T : ElementType) (store : Store) (key : CollectionKey) :
    Except Error (List T.Element) :=
  match store.rows? key with
  | some (.sequence rows) | some (.set rows) =>
    (rows.filter fun v => !v.isNull).mapM T.internalize
  | _ => return []

def storedEntries (T : ElementType) (K : Scalar) (store : Store) (key : CollectionKey) :
    Except Error (List (K.Carrier × T.Element)) :=
  match store.rows? key with
  | some (.keyed rows) => do
    let entries ← rows.mapM fun r => return (← K.fromValue r.1, ← T.internalize r.2)
    return StableSort.sortBy (fun a b => (compare a.1 b.1).isLE) entries
  | _ => return []

/-- Does work on the rows of a collection; one that is not stored yet starts empty. -/
def apply (store : Store) (d : Descriptor) (owner : EntityId) (work : RowWork) : Store :=
  let key : CollectionKey := ⟨d.role, owner⟩
  let stored := (store.rows? key).getD (.empty d.shape)
  store.seed key (stored.apply (store.identify d.role) work)

def offlineError : Error :=
  .sourceUnavailable .offline

/-- A load announces the number of rows and delivers them in order. -/
def load (key : CollectionKey) (store : Store) : Feed × Store :=
  if store.offline then (⟨[], some offlineError⟩, store)
  else
    let stored := store.rows? key
    let size := (stored.map StoredRows.size).getD 0
    let rows := (stored.map StoredRows.rows).getD []
    (⟨.announce size :: rows.map fun r => .row r.1 r.2, none⟩,
      { store with loads := store.loads + 1, announced := store.announced ++ [size] })

def probe (key : CollectionKey) (answer : Option StoredRows → α) (store : Store) :
    Except Error (Option α) × Store :=
  if store.offline then (.error offlineError, store)
  else if store.probesEnabled then
    (.ok (some (answer (store.rows? key))), { store with probes := store.probes + 1 })
  else (.ok none, store)

def size (key : CollectionKey) : Store → Except Error (Option Nat) × Store :=
  probe key fun stored => (stored.map StoredRows.size).getD 0

def holdsIdentity (identify : Value → Value) (id : Value) : Option StoredRows → Bool
  | some (.sequence rows) | some (.set rows) => rows.any fun r => !r.isNull && identify r == id
  | some (.keyed rows) => rows.any fun r => identify r.2 == id
  | none => false

def hasElement (key : CollectionKey) (id : Value) (store : Store) :
    Except Error (Option Bool) × Store :=
  probe key (holdsIdentity (store.identify key.role) id) store

def rowAt (slot : RowSlot) : Option StoredRows → ElementProbe
  | some (.keyed rows) =>
    match slot with
    | .key k =>
      match rows.find? fun r => r.1 == k with
      | some row => .present row.2
      | none => .absent
    | _ => .absent
  | some (.sequence rows) =>
    match slot with
    | .index i =>
      match rows[i]? with
      | some v => if v.isNull then .absent else .present v
      | none => .absent
    | _ => .absent
  | _ => .absent

def elementAt (key : CollectionKey) (slot : RowSlot) :
    Store → Except Error (Option ElementProbe) × Store :=
  probe key (rowAt slot)

def inspect (store : Store) : String :=
  Text.inspectOpenRecord "InMemoryStore"
    [("collections", toString store.collections.size),
     ("offline", Text.inspectBool store.offline), ("loads", toString store.loads),
     ("probes", toString store.probes)]

end Store

end LazyCollections
