import LazyCollections.Changes.Basic

/-!
# Comparing contents with a snapshot

The snapshot of a collection is what is stored of it. `equalsSnapshot` says whether the contents
are still the same, and `diff` says what has to be written. Sequences are compared slot by slot, a
missing slot like a null one; a null against an element is an insertion or a deletion, never an
update. Sets are compared by identity, and an element that has changed is deleted and inserted
again. Keyed collections are compared key by key.

Without a snapshot everything is written anew.
-/

namespace LazyCollections

set_option autoImplicit false

variable {T : ElementType} {K : Scalar}

def slotUnchanged (T : ElementType) : Option T.Element → Option T.Element → Bool
  | none, none => true
  | some old, some new => !T.isDirty new old
  | _, _ => false

def entriesUnchanged {κ : Type} [Ord κ] (T : ElementType)
    (old new : SortedMap κ T.Element) : Bool :=
  old.size = new.size &&
    new.entries.all fun e => (old.get? e.1).any fun o => !T.isDirty e.2 o

def equalsSnapshot : (snapshot current : Aggregate T K) → Bool
  | .sequence old, .sequence new =>
    old.length = new.length && (old.zip new).all fun pair => slotUnchanged T pair.1 pair.2
  | .set old, .set new => entriesUnchanged T old new
  | .keyed old, .keyed new => entriesUnchanged T old new
  | _, _ => false

/-- The elements of the snapshot whose identity the contents no longer hold. -/
def orphans (snapshot current : Aggregate T K) : List T.Element :=
  unlisted (current.elements.map T.idOf) snapshot.elements

/-- Every index of the longer side with what both sides hold there. -/
def slotPairs {ε : Type} (old new : List (Option ε)) : List (Nat × Option ε × Option ε) :=
  (List.range (max old.length new.length)).map fun i => (i, old[i]?.join, new[i]?.join)

def diffSequence (old new : List (Option T.Element)) : ChangeSet T.Element K.Carrier where
  deletions := (slotPairs old new).filterMap fun
    | (i, some o, none) => some ⟨.index i, o⟩
    | _ => none
  updates := (slotPairs old new).filterMap fun
    | (i, some o, some n) => if T.isDirty n o then some ⟨.index i, o, n⟩ else none
    | _ => none
  insertions := (slotPairs old new).filterMap fun
    | (i, none, some n) => some ⟨.index i, n⟩
    | _ => none

def removedEntries {κ : Type} [Ord κ] (old new : SortedMap κ T.Element) : List (κ × T.Element) :=
  old.entries.filter fun e => !new.contains e.1

def addedEntries {κ : Type} [Ord κ] (old new : SortedMap κ T.Element) : List (κ × T.Element) :=
  new.entries.filter fun e => !old.contains e.1

/-- The entries of both sides whose element has changed: key, old and new element. -/
def changedEntries {κ : Type} [Ord κ] (old new : SortedMap κ T.Element) :
    List (κ × T.Element × T.Element) :=
  new.entries.filterMap fun e =>
    match old.get? e.1 with
    | some o => if T.isDirty e.2 o then some (e.1, o, e.2) else none
    | none => none

def diffSet (old new : SortedMap T.Id T.Element) : ChangeSet T.Element K.Carrier where
  deletions :=
    (removedEntries old new).map (fun e => ⟨.unordered, e.2⟩) ++
      (changedEntries old new).map fun e => ⟨.unordered, e.2.1⟩
  insertions := new.entries.filterMap fun e =>
    match old.get? e.1 with
    | some o => if T.isDirty e.2 o then some ⟨.unordered, e.2⟩ else none
    | none => some ⟨.unordered, e.2⟩

def diffKeyed (old new : SortedMap K.Carrier T.Element) : ChangeSet T.Element K.Carrier where
  deletions := (removedEntries old new).map fun e => ⟨.key e.1, e.2⟩
  updates := (changedEntries old new).map fun e => ⟨.key e.1, e.2.1, e.2.2⟩
  insertions := (addedEntries old new).map fun e => ⟨.key e.1, e.2⟩

def writeAnew (current : Aggregate T K) : ChangeSet T.Element K.Carrier where
  truncate := true
  insertions :=
    match current with
    | .sequence slots =>
      slots.zipIdx.filterMap fun slot => slot.1.map fun e => ⟨.index slot.2, e⟩
    | .set items => items.values.map fun e => ⟨.unordered, e⟩
    | .keyed items => items.entries.map fun e => ⟨.key e.1, e.2⟩

def diffRows : (snapshot current : Aggregate T K) → Except Error (ChangeSet T.Element K.Carrier)
  | .sequence old, .sequence new => .ok (diffSequence old new)
  | .set old, .set new => .ok (diffSet old new)
  | .keyed old, .keyed new => .ok (diffKeyed old new)
  | old, new => .error (.invariantViolation (.mixedShapes old.shape new.shape))

/-- The work that makes the stored rows of the snapshot those of the contents. -/
def diff (snapshot : Option (Aggregate T K)) (current : Aggregate T K) (collectOrphans : Bool) :
    Except Error (ChangeSet T.Element K.Carrier) :=
  match snapshot with
  | none => .ok (writeAnew current)
  | some old => do
    let changes ← diffRows old current
    return if collectOrphans then { changes with orphans := orphans old current } else changes

end LazyCollections
