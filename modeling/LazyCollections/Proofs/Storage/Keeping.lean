import LazyCollections.Proofs.Storage.Delivery

/-!
# Collections that may not be stored yet

A collection without rows is as good as one that is stored empty: a load delivers nothing, a probe
finds nothing, and work on it starts from nothing. So the store keeps contents for every owner.
-/

namespace LazyCollections.Store

set_option autoImplicit false

variable {T : ElementType} {K : Scalar} {store later : Store} {d : Descriptor} {owner : EntityId}
variable {a : Aggregate T K}

/-- The rows of a collection, where none are stored the rows of an empty one. -/
def rowsOrEmpty (store : Store) (d : Descriptor) (owner : EntityId) : StoredRows :=
  (store.rows? ⟨d.role, owner⟩).getD (.empty d.shape)

def Keeps (store : Store) (d : Descriptor) (owner : EntityId) (a : Aggregate T K) : Prop :=
  (store.rowsOrEmpty d owner).Holds a

theorem HoldsAt.keeps (h : store.HoldsAt ⟨d.role, owner⟩ a) : store.Keeps d owner a := by
  obtain ⟨rows, hrows, hholds⟩ := h
  rw [Keeps, rowsOrEmpty, hrows]
  exact hholds

theorem keeps_empty (h : store.rows? ⟨d.role, owner⟩ = none) :
    store.Keeps d owner (.empty d.shape : Aggregate T K) := by
  rw [Keeps, rowsOrEmpty, h]
  exact StoredRows.holds_empty d.shape

theorem Keeps.of_rows?_eq (h : store.Keeps d owner a)
    (hrows : later.rows? ⟨d.role, owner⟩ = store.rows? ⟨d.role, owner⟩) :
    later.Keeps d owner a := by
  rw [Keeps, rowsOrEmpty, hrows]
  exact h

theorem Agrees.keeps (h : store.Agrees later) (ha : store.Keeps d owner a) :
    later.Keeps d owner a :=
  ha.of_rows?_eq (by rw [rows?, rows?, h.collections])

theorem delivers_empty (shape : Shape) :
    (StoredRows.empty shape).size = 0 ∧ (StoredRows.empty shape).rows = [] := by
  cases shape <;> exact ⟨rfl, rfl⟩

theorem load_rowsOrEmpty (store : Store) (d : Descriptor) (owner : EntityId) :
    (load ⟨d.role, owner⟩ (store.seed ⟨d.role, owner⟩ (store.rowsOrEmpty d owner))).1 =
      (load ⟨d.role, owner⟩ store).1 := by
  simp only [load, rows?_seed_self, rowsOrEmpty]
  cases store.rows? ⟨d.role, owner⟩ with
  | some rows => cases hoff : store.offline <;> simp [seed, hoff]
  | none => cases hoff : store.offline <;> simp [seed, hoff, delivers_empty]

theorem Keeps.contents_load (hT : T.Storable) (hK : K.Restores) (hon : store.offline = false)
    (ha : a.KeyedById) (hshape : a.shape = d.shape) (h : store.Keeps d owner a) :
    (load ⟨d.role, owner⟩ store).1.contents d.shape = .ok a := by
  have hseeded : (store.seed ⟨d.role, owner⟩ (store.rowsOrEmpty d owner)).HoldsAt
      ⟨d.role, owner⟩ a := ⟨_, rows?_seed_self _ _ _, h⟩
  rw [← load_rowsOrEmpty, ← hshape]
  exact Store.contents_load hT hK hon ha hseeded

theorem holdsIdentity_rowsOrEmpty (store : Store) (d : Descriptor) (owner : EntityId)
    (identify : Value → Value) (id : Value) :
    holdsIdentity identify id (some (store.rowsOrEmpty d owner)) =
      holdsIdentity identify id (store.rows? ⟨d.role, owner⟩) := by
  rw [rowsOrEmpty]
  cases store.rows? ⟨d.role, owner⟩ with
  | some rows => rfl
  | none => cases d.shape <;> rfl

theorem rowAt_rowsOrEmpty (store : Store) (d : Descriptor) (owner : EntityId) (v : Value) :
    rowAt (.key v) (some (store.rowsOrEmpty d owner)) =
      rowAt (.key v) (store.rows? ⟨d.role, owner⟩) := by
  rw [rowsOrEmpty]
  cases store.rows? ⟨d.role, owner⟩ with
  | some rows => rfl
  | none => cases d.shape <;> rfl

theorem Keeps.holdsIdentity_eq (hT : T.Storable) (hid : T.StorableId)
    (hrows : store.Identifies T d.role) (hshape : a.shape ≠ .keyed) (h : store.Keeps d owner a)
    (e : T.Element) :
    holdsIdentity (store.identify d.role) (T.idForm e) (store.rows? ⟨d.role, owner⟩) =
      a.has e := by
  rw [← holdsIdentity_rowsOrEmpty]
  exact StoredRows.Holds.holdsIdentity_eq hT hid hrows hshape h e

theorem Keeps.rowAt_eq (hK : K.Restores) {items : SortedMap K.Carrier T.Element}
    (h : store.Keeps d owner (.keyed items : Aggregate T K)) (k : K.Carrier) :
    rowAt (.key (K.toValue k)) (store.rows? ⟨d.role, owner⟩) =
      match items.get? k with
      | some e => .present (T.form e)
      | none => .absent := by
  rw [← rowAt_rowsOrEmpty]
  exact StoredRows.Holds.rowAt_eq hK h k

theorem Keeps.apply (hT : T.Storable) (hK : K.Restores) (ha : a.KeyedById)
    (h : store.Keeps d owner a) (c : ChangeSet T.Element K.Carrier)
    (hid : c.FindsRows a.shape → T.IdentifiedBy (store.identify d.role)) :
    (store.apply d owner (c.toRowWork T K)).Keeps d owner (c.carryOut a) := by
  refine HoldsAt.keeps ⟨_, rows?_seed_self _ _ _, ?_⟩
  exact StoredRows.Holds.apply hT hK ha h c hid

/-- The store keeps contents for the collection of an owner that fit the collection, and knows how
its rows are identified. -/
structure Provides (store : Store) (d : Descriptor) (owner : EntityId) (stored : Aggregate T K) :
    Prop where
  keeps : store.Keeps d owner stored
  identifies : d.shape ≠ .keyed → store.Identifies T d.role
  shape_eq : stored.shape = d.shape
  keyedById : stored.KeyedById

/-- A store that was told the type of a role's elements and was given rows of their contents. -/
theorem provides_seed (hT : T.Storable) (hid : T.StorableId) (store : Store) (d : Descriptor)
    (owner : EntityId) {rows : StoredRows} (h : rows.Holds a) (ha : a.KeyedById)
    (hshape : a.shape = d.shape) :
    ((store.registerIdentity T d.role).seed ⟨d.role, owner⟩ rows).Provides d owner a where
  keeps := HoldsAt.keeps ⟨rows, rows?_seed_self _ _ _, h⟩
  identifies _ := identifies_of_registered hT hid (SortedMap.get?_insert_self _ _ _)
  shape_eq := hshape
  keyedById := ha

theorem Agrees.provides (h : store.Agrees later) (ha : store.Provides d owner a) :
    later.Provides d owner a :=
  { ha with
    keeps := h.keeps ha.keeps
    identifies := fun hshape => h.identifies (ha.identifies hshape) }

/-- The rows of all collections are the same, and so is how they are identified. Whether the store
is online does not matter. -/
structure SameRows (store later : Store) : Prop where
  collections : later.collections = store.collections
  identities : later.identities = store.identities

theorem SameRows.refl (store : Store) : store.SameRows store :=
  ⟨rfl, rfl⟩

theorem SameRows.trans {last : Store} (h : store.SameRows later) (hlast : later.SameRows last) :
    store.SameRows last :=
  ⟨hlast.collections.trans h.collections, hlast.identities.trans h.identities⟩

theorem Agrees.sameRows (h : store.Agrees later) : store.SameRows later :=
  ⟨h.collections, h.identities⟩

theorem Provides.congr (h : store.Provides d owner a) (hsame : store.SameRows later) :
    later.Provides d owner a := by
  have hagrees : Store.Agrees { store with offline := later.offline } later :=
    ⟨hsame.collections, hsame.identities, rfl⟩
  exact hagrees.provides { h with keeps := h.keeps }

theorem Provides.apply_of_ne (h : store.Provides d owner a) {other : EntityId}
    (hne : owner ≠ other) (work : RowWork) : (store.apply d other work).Provides d owner a :=
  { h with
    keeps := by
      refine h.keeps.of_rows?_eq (rows?_apply_of_ne fun hkey => hne ?_)
      exact congrArg CollectionKey.owner hkey
    identifies := h.identifies }

def rowCount (store : Store) (d : Descriptor) (owner : EntityId) : Nat :=
  (store.rowsOrEmpty d owner).size

theorem getD_size_rows? (store : Store) (d : Descriptor) (owner : EntityId) :
    ((store.rows? ⟨d.role, owner⟩).map StoredRows.size).getD 0 = store.rowCount d owner := by
  rw [rowCount, rowsOrEmpty]
  cases store.rows? ⟨d.role, owner⟩ with
  | some rows => rfl
  | none => exact (delivers_empty d.shape).1.symm

theorem SameRows.rowCount_eq (h : store.SameRows later) (d : Descriptor) (owner : EntityId) :
    later.rowCount d owner = store.rowCount d owner := by
  rw [rowCount, rowCount, rowsOrEmpty, rowsOrEmpty, rows?, rows?, h.collections]

theorem Provides.size_eq (h : store.Provides d owner a) : a.size = store.rowCount d owner :=
  (StoredRows.Holds.size_eq h.keeps).symm

end LazyCollections.Store
