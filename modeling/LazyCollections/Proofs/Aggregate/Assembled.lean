import LazyCollections.Proofs.Aggregate.Places
import LazyCollections.Proofs.Storage.Delivery

/-!
# Contents assembled from rows

A row is for one place: its index, its key, or the identity of its element. A null row is for its
index, but for no key and no identity. Contents that are read from rows hold at each place what the
last row for it brings, whatever comes in between, so that rows for different places may arrive in
any order. Whether a row is accepted depends on its parts and on the shape of the contents only, and
a row that is refused leaves them as they are.
-/

namespace LazyCollections

set_option autoImplicit false

variable {T : ElementType} {K : Scalar}

namespace Place

def ofRow? (row : RowSlot × Value) : Option (Place T K) :=
  match row.1 with
  | .index i => some (index i)
  | .key k => if row.2.isNull then none else (K.fromValue k).toOption.map key
  | .unordered => (T.internalizeSlot row.2).toOption.join.map fun e => identity (T.idOf e)

/-- The rows for a place, in the order in which they arrive. -/
def rowsFor (p : Place T K) (rows : List (RowSlot × Value)) : List (RowSlot × Value) :=
  rows.filter fun row => ofRow? row = some p

/-- After the rows a place holds the element of the last row for it, which may be null, or if there
is none what it held before. -/
def Receives (p : Place T K) (rows : List (RowSlot × Value)) (before now : Option T.Element) :
    Prop :=
  match (p.rowsFor rows).getLast? with
  | some row => T.internalizeSlot row.2 = .ok now
  | none => now = before

variable {p : Place T K} {rows later : List (RowSlot × Value)} {row : RowSlot × Value}
variable {before now next : Option T.Element}

theorem Receives.nil : p.Receives [] before before :=
  rfl

theorem receives_of_ofRow?_ne (hrow : ofRow? row ≠ some p) : p.Receives [row] before before := by
  have hrows : p.rowsFor [row] = [] := List.filter_cons_of_neg (by simpa using hrow)
  rw [Receives, hrows]
  rfl

theorem receives_of_ofRow?_eq {q : Place T K} (hrow : ofRow? row = some q)
    (h : T.internalizeSlot row.2 = .ok now) :
    p.Receives [row] before (if q = p then now else before) := by
  by_cases hq : q = p
  · subst hq
    have hrows : q.rowsFor [row] = [row] := List.filter_cons_of_pos (by simpa using hrow)
    rw [Receives, hrows, if_pos rfl]
    exact h
  · rw [if_neg hq]
    exact receives_of_ofRow?_ne fun heq => hq (Option.some.inj (hrow.symm.trans heq))

theorem Receives.append (h : p.Receives rows before now) (hlater : p.Receives later now next) :
    p.Receives (rows ++ later) before next := by
  rw [Receives, rowsFor, List.filter_append, List.getLast?_append]
  rw [Receives, rowsFor] at h hlater
  cases hlast : (later.filter fun row => ofRow? row = some p).getLast? with
  | some row =>
    rw [hlast] at hlater
    exact hlater
  | none =>
    rw [hlast] at hlater
    obtain rfl : next = now := hlater
    exact h

theorem Receives.congr (hrows : p.rowsFor rows = p.rowsFor later)
    (h : p.Receives rows before now) (hlater : p.Receives later before next) : now = next := by
  rw [Receives, hrows] at h
  rw [Receives] at hlater
  cases hlast : (p.rowsFor later).getLast? with
  | some row =>
    rw [hlast] at h hlater
    exact Except.ok.inj (h.symm.trans hlater)
  | none =>
    rw [hlast] at h hlater
    exact h.trans hlater.symm

end Place

namespace Builder

/-- Rows for a sequence all have an index. -/
def Placed (shape : Shape) (rows : List (RowSlot × Value)) : Prop :=
  shape = .sequence → ∀ row ∈ rows, ∃ i, row.1 = .index i

variable {a b next : Aggregate T K} {slot : RowSlot} {v : Value}
variable {rows : List (RowSlot × Value)}

theorem internalizeSlot_of_isNull (h : v.isNull = true) : T.internalizeSlot v = .ok none :=
  if_pos h

theorem internalizeSlot_of_internalize {e : T.Element} (hnull : ¬v.isNull = true)
    (h : T.internalize v = .ok e) : T.internalizeSlot v = .ok (some e) := by
  rw [ElementType.internalizeSlot, if_neg hnull, h]
  rfl

theorem receives_addRow (h : addRow a slot v = .ok next) (hslot : Placed a.shape [(slot, v)])
    (p : Place T K) : p.Receives [(slot, v)] (a.at? p) (next.at? p) := by
  unfold addRow at h
  split at h
  next slots i =>
    obtain ⟨e, he, h⟩ := bind_eq_ok.mp h
    cases h
    rw [Aggregate.at?_writeSlot]
    exact Place.receives_of_ofRow?_eq rfl he
  next slots =>
    -- A row without an index would be for the place after the last slot.
    obtain ⟨i, hi⟩ := hslot rfl _ List.mem_cons_self
    cases hi
  next items =>
    split at h
    next hnull =>
      cases h
      refine Place.receives_of_ofRow?_ne ?_
      simp [Place.ofRow?, internalizeSlot_of_isNull hnull, Except.toOption]
    next hnull =>
      obtain ⟨e, he, h⟩ := bind_eq_ok.mp h
      cases h
      have hrow := internalizeSlot_of_internalize hnull he
      rw [Aggregate.at?_insert_set]
      refine Place.receives_of_ofRow?_eq ?_ hrow
      simp [Place.ofRow?, hrow, Except.toOption]
  next items k =>
    split at h
    next hnull =>
      cases h
      exact Place.receives_of_ofRow?_ne (by simp [Place.ofRow?, hnull])
    next hnull =>
      obtain ⟨key, hkey, h⟩ := bind_eq_ok.mp h
      obtain ⟨e, he, h⟩ := bind_eq_ok.mp h
      cases h
      rw [Aggregate.at?_insert_keyed]
      refine Place.receives_of_ofRow?_eq ?_ (internalizeSlot_of_internalize hnull he)
      simp [Place.ofRow?, hnull, hkey, Except.toOption]
  next => cases h

theorem exists_addRow_of_shape_eq (hshape : b.shape = a.shape) (h : addRow a slot v = .ok next) :
    ∃ other, addRow b slot v = .ok other := by
  unfold addRow at h
  split at h
  next slots i =>
    obtain ⟨others, rfl⟩ := Aggregate.exists_eq_sequence hshape
    obtain ⟨e, he, -⟩ := bind_eq_ok.mp h
    exact ⟨_, bind_eq_ok.mpr ⟨e, he, rfl⟩⟩
  next slots =>
    obtain ⟨others, rfl⟩ := Aggregate.exists_eq_sequence hshape
    obtain ⟨e, he, -⟩ := bind_eq_ok.mp h
    exact ⟨_, bind_eq_ok.mpr ⟨e, he, rfl⟩⟩
  next items =>
    obtain ⟨others, rfl⟩ := Aggregate.exists_eq_set hshape
    split at h
    next hnull => exact ⟨_, if_pos hnull⟩
    next hnull =>
      obtain ⟨e, he, -⟩ := bind_eq_ok.mp h
      exact ⟨_, (if_neg hnull).trans (bind_eq_ok.mpr ⟨e, he, rfl⟩)⟩
  next items k =>
    obtain ⟨others, rfl⟩ := Aggregate.exists_eq_keyed hshape
    split at h
    next hnull => exact ⟨_, if_pos hnull⟩
    next hnull =>
      obtain ⟨key, hkey, h⟩ := bind_eq_ok.mp h
      obtain ⟨e, he, -⟩ := bind_eq_ok.mp h
      exact ⟨_, (if_neg hnull).trans
        (bind_eq_ok.mpr ⟨key, hkey, bind_eq_ok.mpr ⟨e, he, rfl⟩⟩)⟩
  next => cases h

theorem size_addRow_le_iff (h : addRow a slot v = .ok next) (hshape : a.shape = .sequence)
    (hslot : Placed a.shape [(slot, v)]) (n : Nat) :
    next.size ≤ n ↔ a.size ≤ n ∧ ∀ i, slot = .index i → i < n := by
  obtain ⟨slots, rfl⟩ := Aggregate.exists_eq_sequence hshape
  obtain ⟨i, hi⟩ := hslot hshape _ List.mem_cons_self
  obtain rfl : slot = .index i := hi
  obtain ⟨e, -, h⟩ := bind_eq_ok.mp h
  cases h
  simp only [Aggregate.size, length_writeSlot, Slot.index.injEq, forall_eq']
  omega

theorem Placed.cons {shape : Shape} {row : RowSlot × Value} (h : Placed shape (row :: rows)) :
    Placed shape [row] ∧ Placed shape rows := by
  refine ⟨fun hshape => ?_, fun hshape => (List.forall_mem_cons.mp (h hshape)).2⟩
  exact List.forall_mem_singleton.mpr (List.forall_mem_cons.mp (h hshape)).1

variable {b last : Builder T K}

theorem anticipated_readAll (h : b.readAll rows = .ok last) : last.anticipated = b.anticipated := by
  induction rows generalizing b with
  | nil =>
    cases h
    rfl
  | cons row rows ih =>
    obtain ⟨a, -, h⟩ := readAll_cons_eq_ok.mp h
    exact ih (b := ⟨a, b.anticipated⟩) h

theorem receives_readAll (h : b.readAll rows = .ok last) (hb : b.aggregate.KeyedById)
    (hrows : Placed b.aggregate.shape rows) (p : Place T K) :
    p.Receives rows (b.aggregate.at? p) (last.aggregate.at? p) := by
  induction rows generalizing b with
  | nil =>
    cases h
    exact .nil
  | cons row rows ih =>
    obtain ⟨a, hrow, h⟩ := readAll_cons_eq_ok.mp h
    obtain ⟨hshape, ha⟩ := addRow_keeps hrow hb
    obtain ⟨hfirst, hrest⟩ := hrows.cons
    exact (receives_addRow hrow hfirst p).append (ih h ha (hshape ▸ hrest))

theorem size_readAll_le_iff (h : b.readAll rows = .ok last) (hb : b.aggregate.KeyedById)
    (hshape : b.aggregate.shape = .sequence) (hrows : Placed b.aggregate.shape rows) (n : Nat) :
    last.aggregate.size ≤ n ↔
      b.aggregate.size ≤ n ∧ ∀ row ∈ rows, ∀ i, row.1 = .index i → i < n := by
  induction rows generalizing b with
  | nil =>
    cases h
    simp
  | cons row rows ih =>
    obtain ⟨a, hrow, h⟩ := readAll_cons_eq_ok.mp h
    obtain ⟨hkept, ha⟩ := addRow_keeps hrow hb
    obtain ⟨hfirst, hrest⟩ := hrows.cons
    rw [ih h ha (hkept.trans hshape) (hkept ▸ hrest), size_addRow_le_iff hrow hshape hfirst,
      List.forall_mem_cons, and_assoc]

theorem exists_readAll_iff (hb : b.aggregate.KeyedById) :
    (∃ last, b.readAll rows = .ok last) ↔
      ∀ row ∈ rows, ∃ a, addRow b.aggregate row.1 row.2 = .ok a := by
  induction rows generalizing b with
  | nil => exact iff_of_true ⟨b, rfl⟩ (by simp)
  | cons row rows ih =>
    rw [List.forall_mem_cons]
    constructor
    · rintro ⟨last, h⟩
      obtain ⟨a, hrow, h⟩ := readAll_cons_eq_ok.mp h
      obtain ⟨hshape, ha⟩ := addRow_keeps hrow hb
      refine ⟨⟨a, hrow⟩, fun other hother => ?_⟩
      obtain ⟨_, haccepted⟩ := (ih (b := ⟨a, b.anticipated⟩) ha).mp ⟨last, h⟩ other hother
      exact exists_addRow_of_shape_eq hshape.symm haccepted
    · rintro ⟨⟨a, hrow⟩, hrest⟩
      obtain ⟨hshape, ha⟩ := addRow_keeps hrow hb
      obtain ⟨last, h⟩ := (ih (b := ⟨a, b.anticipated⟩) ha).mpr fun other hother => by
        obtain ⟨_, haccepted⟩ := hrest other hother
        exact exists_addRow_of_shape_eq hshape haccepted
      exact ⟨last, readAll_cons_eq_ok.mpr ⟨a, hrow, h⟩⟩

section Rearranged

variable {again : List (RowSlot × Value)} {other : Builder T K}

theorem size_readAll_eq_of_perm (h : b.readAll rows = .ok last)
    (hother : b.readAll again = .ok other) (hb : b.aggregate.KeyedById)
    (hshape : b.aggregate.shape = .sequence) (hrows : Placed b.aggregate.shape rows)
    (hagain : Placed b.aggregate.shape again) (hperm : rows.Perm again) :
    last.aggregate.size = other.aggregate.size := by
  have hbounds (n : Nat) : last.aggregate.size ≤ n ↔ other.aggregate.size ≤ n := by
    rw [size_readAll_le_iff h hb hshape hrows, size_readAll_le_iff hother hb hshape hagain]
    simp only [hperm.mem_iff]
  have hle := (hbounds other.aggregate.size).mpr (Nat.le_refl _)
  have hge := (hbounds last.aggregate.size).mp (Nat.le_refl _)
  omega

theorem readAll_eq_of_perm (h : b.readAll rows = .ok last) (hb : b.aggregate.KeyedById)
    (hrows : Placed b.aggregate.shape rows) (hperm : rows.Perm again)
    (hplaces : ∀ p : Place T K, p.rowsFor rows = p.rowsFor again) :
    b.readAll again = .ok last := by
  have hagain : Placed b.aggregate.shape again := fun hshape row hrow =>
    hrows hshape row (hperm.mem_iff.mpr hrow)
  obtain ⟨other, hother⟩ := (exists_readAll_iff hb).mpr fun row hrow =>
    (exists_readAll_iff hb).mp ⟨last, h⟩ row (hperm.mem_iff.mpr hrow)
  obtain ⟨hshape, -⟩ := readAll_keeps h hb
  obtain ⟨hothershape, -⟩ := readAll_keeps hother hb
  have haggregate : last.aggregate = other.aggregate := by
    refine Aggregate.ext_at? (hshape.trans hothershape.symm) (fun hsequence => ?_) fun p => ?_
    · exact size_readAll_eq_of_perm h hother hb (hshape.symm.trans hsequence) hrows hagain hperm
    · exact (receives_readAll h hb hrows p).congr (hplaces p)
        (receives_readAll hother hb hagain p)
  have hanticipated := (anticipated_readAll h).trans (anticipated_readAll hother).symm
  cases last
  cases other
  cases haggregate
  cases hanticipated
  exact hother

end Rearranged

/-- Reads a row into contents that are changed in place, step by step: a slot is written after the
slots before it have been added. -/
def readInPlace (slot : RowSlot) (v : Value) : EStateM Error (Aggregate T K) Unit := do
  match ← get, slot with
  | .sequence slots, .index i =>
    let element ← MonadExcept.ofExcept (T.internalizeSlot v)
    let mut slots := slots
    if slots.length ≤ i then
      slots := slots ++ List.replicate (i + 1 - slots.length) none
      set (Aggregate.sequence slots : Aggregate T K)
    set (Aggregate.sequence (slots.set i element) : Aggregate T K)
  | .sequence slots, .unordered =>
    let element ← MonadExcept.ofExcept (T.internalizeSlot v)
    set (Aggregate.sequence (slots ++ [element]) : Aggregate T K)
  | .set items, .unordered =>
    if !v.isNull then
      let element ← MonadExcept.ofExcept (T.internalize v)
      set (Aggregate.set (items.insert (T.idOf element) element) : Aggregate T K)
  | .keyed items, .key k =>
    if !v.isNull then
      let key ← MonadExcept.ofExcept (K.fromValue k)
      let element ← MonadExcept.ofExcept (T.internalize v)
      set (Aggregate.keyed (items.insert key element) : Aggregate T K)
  | a, slot => throw (.invariantViolation (.unfitRow slot a.shape))

theorem writeSlot_of_lt {α : Type} {slots : List (Option α)} {i : Nat} (hi : i < slots.length)
    (e : Option α) : writeSlot slots i e = slots.set i e := by
  have hnone : i + 1 - slots.length = 0 := by omega
  simp [writeSlot, hnone]

theorem readInPlace_run (a : Aggregate T K) (slot : RowSlot) (v : Value) :
    (readInPlace slot v).run a =
      match addRow a slot v with
      | .ok next => .ok () next
      | .error error => .error error a := by
  cases a with
  | sequence slots =>
    cases slot with
    | index i =>
      simp only [readInPlace, addRow, EStateM.run_bind, EStateM.run_get, ofExcept_run]
      cases T.internalizeSlot v with
      | error error => rfl
      | ok e =>
        by_cases hi : slots.length ≤ i
        · simp [hi, writeSlot]
        · simp [hi, writeSlot_of_lt (Nat.not_le.mp hi)]
    | unordered =>
      simp only [readInPlace, addRow, EStateM.run_bind, EStateM.run_get, ofExcept_run]
      cases T.internalizeSlot v <;> rfl
    | key k => rfl
  | set items =>
    cases slot with
    | unordered =>
      simp only [readInPlace, addRow, EStateM.run_bind, EStateM.run_get]
      cases hnull : v.isNull with
      | true => rfl
      | false => cases T.internalize v <;> simp
    | index i => rfl
    | key k => rfl
  | keyed items =>
    cases slot with
    | key k =>
      simp only [readInPlace, addRow, EStateM.run_bind, EStateM.run_get]
      cases hnull : v.isNull with
      | true => rfl
      | false =>
        cases hkey : K.fromValue k with
        | error error => rfl
        | ok key => cases T.internalize v <;> simp <;> rfl
    | unordered => rfl
    | index i => rfl

theorem readInPlace_of_read (built : Builder T K) (slot : RowSlot) (v : Value) :
    (∀ next, built.read slot v = .ok next →
      (readInPlace slot v).run built.aggregate = .ok () next.aggregate) ∧
    ∀ error, built.read slot v = .error error →
      (readInPlace slot v).run built.aggregate = .error error built.aggregate := by
  rw [readInPlace_run]
  constructor
  · intro next h
    obtain ⟨a, ha, h⟩ := bind_eq_ok.mp h
    cases h
    rw [ha]
  · intro error h
    rcases bind_eq_error.mp h with ha | ⟨a, -, h⟩
    · rw [ha]
    · cases h

theorem size_readAll_announced {b built : Builder T K} {rows : List (RowSlot × Value)} (size : Nat)
    (hplaced : Placed b.aggregate.shape rows)
    (hread : (b.announce size).readAll rows = .ok built) (hsequence : b.aggregate.shape = .sequence) :
    (rows = [] → built.aggregate.size = 0) ∧
      ∀ i v, (.index i, v) ∈ rows → (∀ row ∈ rows, ∀ j, row.1 = .index j → j ≤ i) →
        built.aggregate.size = i + 1 := by
  have hstart : (b.announce size).aggregate.shape = b.aggregate.shape :=
    Aggregate.shape_cleared _
  have hempty : (b.announce size).aggregate.size = 0 := Aggregate.size_cleared _
  rw [← hstart] at hplaced
  have hbound := size_readAll_le_iff hread (Aggregate.keyedById_empty _) (hstart.trans hsequence)
    hplaced
  simp only [hempty, Nat.zero_le, true_and] at hbound
  constructor
  · rintro rfl
    exact Nat.le_zero.mp ((hbound 0).mpr nofun)
  · intro i v hmem hlargest
    have hle : built.aggregate.size ≤ i + 1 :=
      (hbound _).mpr fun row hrow j hj => Nat.lt_succ_of_le (hlargest row hrow j hj)
    have hlt : ¬built.aggregate.size ≤ i := fun hi =>
      Nat.lt_irrefl i ((hbound i).mp hi _ hmem i rfl)
    omega

/-- Contents hold at each place what the last row for it brings, a sequence ends with the largest
index, and rows for different places may change places. A row that is refused leaves all this as it
is, although rows are read in place. -/
theorem assembled_by_place {b built : Builder T K} {rows : List (RowSlot × Value)} (size : Nat)
    (hplaced : Placed b.aggregate.shape rows)
    (hread : (b.announce size).readAll rows = .ok built) :
    built.anticipated = some size ∧ built.aggregate.shape = b.aggregate.shape ∧
    built.aggregate.KeyedById ∧
    (∀ p : Place T K, p.Receives rows none (built.aggregate.at? p)) ∧
    (b.aggregate.shape = .sequence →
      (rows = [] → built.aggregate.size = 0) ∧
      ∀ i v, (.index i, v) ∈ rows → (∀ row ∈ rows, ∀ j, row.1 = .index j → j ≤ i) →
        built.aggregate.size = i + 1) ∧
    (∀ again, rows.Perm again → (∀ p : Place T K, p.rowsFor rows = p.rowsFor again) →
      (b.announce size).readAll again = .ok built) ∧
    ∀ slot v,
      (∀ next, built.read slot v = .ok next →
        (readInPlace slot v).run built.aggregate = .ok () next.aggregate) ∧
      ∀ error, built.read slot v = .error error →
        (readInPlace slot v).run built.aggregate = .error error built.aggregate := by
  have hkeyed : (b.announce size).aggregate.KeyedById := Aggregate.keyedById_empty _
  have hstart : (b.announce size).aggregate.shape = b.aggregate.shape :=
    Aggregate.shape_cleared _
  obtain ⟨hshape, hbuilt⟩ := readAll_keeps hread hkeyed
  have hfits : Placed (b.announce size).aggregate.shape rows := by rwa [hstart]
  refine ⟨anticipated_readAll hread, hshape.trans hstart, hbuilt, fun p => ?_,
    size_readAll_announced size hplaced hread,
    fun again => readAll_eq_of_perm hread hkeyed hfits, readInPlace_of_read built⟩
  have hempty : (b.announce size).aggregate.at? p = none := Aggregate.at?_cleared _ _
  rw [← hempty]
  exact receives_readAll hread hkeyed hfits p

theorem assembled_by_place_notes :
    ∃ built,
      ((start .sequence : Builder (.ofScalar .text) .unkeyed).announce 2).readAll
        [(.index 2, .text "urgent"), (.index 0, .text "heavy"), (.index 0, .null)] = .ok built ∧
      built.aggregate.size = 3 ∧
      ((start .sequence : Builder (.ofScalar .text) .unkeyed).announce 2).readAll
        [(.index 0, .text "heavy"), (.index 0, .null), (.index 2, .text "urgent")] = .ok built := by
  refine ⟨⟨.sequence [none, none, some "urgent"], some 2⟩, rfl, ?_⟩
  have hplaced : Placed .sequence
      [(.index 2, .text "urgent"), (.index 0, .text "heavy"), (.index 0, .null)] := by
    simp [Placed]
  obtain ⟨-, -, -, -, hsize, horder, -⟩ := assembled_by_place
    (b := (start .sequence : Builder (.ofScalar .text) .unkeyed)) 2 hplaced rfl
  refine ⟨(hsize rfl).2 2 (.text "urgent") (by simp) (by simp), ?_⟩
  refine horder _ (List.perm_append_singleton _ [_, _]).symm fun p => ?_
  cases p with
  | index i =>
    by_cases hi : 2 = i
    · subst hi
      simp [Place.rowsFor, Place.ofRow?]
    · by_cases hzero : 0 = i <;> simp [Place.rowsFor, Place.ofRow?, hi, hzero]
  | key k => cases k
  | identity id => simp [Place.rowsFor, Place.ofRow?]

end Builder

end LazyCollections
