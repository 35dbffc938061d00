/-!
# Finite maps in key order

A map is its list of entries in strictly increasing key order, so two maps are equal exactly when
they give the same answer for every key.
-/

namespace LazyCollections

set_option autoImplicit false

structure SortedMap (κ β : Type) [Ord κ] where
  entries : List (κ × β)
  sorted : entries.Pairwise fun a b => compare a.1 b.1 = .lt

namespace SortedMap

variable {κ β : Type} [Ord κ]

/-- Puts an entry at its place in an ordered list, over the entry of the same key. -/
def insertEntry (k : κ) (v : β) : List (κ × β) → List (κ × β)
  | [] => [(k, v)]
  | e :: rest =>
    match compare k e.1 with
    | .lt => (k, v) :: e :: rest
    | .eq => (k, v) :: rest
    | .gt => e :: insertEntry k v rest

theorem mem_insertEntry {k : κ} {v : β} {e : κ × β} {es : List (κ × β)}
    (h : e ∈ insertEntry k v es) : e = (k, v) ∨ e ∈ es := by
  induction es with
  | nil => exact Or.inl (by simpa [insertEntry] using h)
  | cons d rest ih =>
    unfold insertEntry at h
    split at h
    · simpa using h
    · rcases List.mem_cons.mp h with h | h
      · exact Or.inl h
      · exact Or.inr (List.mem_cons_of_mem _ h)
    · rcases List.mem_cons.mp h with h | h
      · exact Or.inr (h ▸ List.mem_cons_self)
      · exact (ih h).imp_right (List.mem_cons_of_mem _)

def get? (m : SortedMap κ β) (k : κ) : Option β :=
  (m.entries.find? fun e => compare e.1 k == .eq).map (·.2)

def contains (m : SortedMap κ β) (k : κ) : Bool :=
  (m.get? k).isSome

def size (m : SortedMap κ β) : Nat :=
  m.entries.length

def isEmpty (m : SortedMap κ β) : Bool :=
  m.entries.isEmpty

def keys (m : SortedMap κ β) : List κ :=
  m.entries.map (·.1)

def values (m : SortedMap κ β) : List β :=
  m.entries.map (·.2)

def empty : SortedMap κ β :=
  ⟨[], List.Pairwise.nil⟩

instance : EmptyCollection (SortedMap κ β) := ⟨empty⟩

instance : Inhabited (SortedMap κ β) := ⟨empty⟩

def erase (m : SortedMap κ β) (k : κ) : SortedMap κ β :=
  ⟨m.entries.filter fun e => compare e.1 k != .eq, m.sorted.filter _⟩

def filterValues (m : SortedMap κ β) (p : β → Bool) : SortedMap κ β :=
  ⟨m.entries.filter fun e => p e.2, m.sorted.filter _⟩

def mapValues {γ : Type} (m : SortedMap κ β) (f : β → γ) : SortedMap κ γ :=
  ⟨m.entries.map fun e => (e.1, f e.2), m.sorted.map _ fun _ _ h => h⟩

@[ext] theorem ext {m n : SortedMap κ β} (h : m.entries = n.entries) : m = n := by
  cases m
  cases n
  simp_all

instance [DecidableEq κ] [DecidableEq β] : DecidableEq (SortedMap κ β) := fun m n =>
  decidable_of_iff (m.entries = n.entries) ⟨ext, fun h => h ▸ rfl⟩

@[simp] theorem get?_empty (k : κ) : (empty : SortedMap κ β).get? k = none := rfl

theorem get?_mapValues {γ : Type} (m : SortedMap κ β) (f : β → γ) (k : κ) :
    (m.mapValues f).get? k = (m.get? k).map f := by
  simp [get?, mapValues, List.find?_map, Function.comp_def]

section LawfulKeys

variable [Std.LawfulEqOrd κ]

theorem find?_insertEntry (k j : κ) (v : β) (es : List (κ × β)) :
    ((insertEntry k v es).find? fun e => compare e.1 j == .eq).map (·.2) =
      if compare k j = .eq then some v
      else (es.find? fun e => compare e.1 j == .eq).map (·.2) := by
  induction es with
  | nil => by_cases h : compare k j = .eq <;> simp [insertEntry, h]
  | cons e rest ih =>
    unfold insertEntry
    split
    next => by_cases h : compare k j = .eq <;> simp [List.find?_cons, h]
    next heq =>
      have hk : k = e.1 := Std.LawfulEqCmp.eq_of_compare heq
      by_cases h : compare k j = .eq <;> simp_all
    next hgt =>
      by_cases he : compare e.1 j = .eq
      · have hj : e.1 = j := Std.LawfulEqCmp.eq_of_compare he
        subst hj
        simp [hgt]
      · simp only [List.find?_cons, beq_eq_false_iff_ne.mpr he]
        exact ih

theorem get?_erase (m : SortedMap κ β) (k j : κ) :
    (m.erase k).get? j = if compare k j = .eq then none else m.get? j := by
  unfold get? erase
  simp only [List.find?_filter]
  by_cases h : compare k j = .eq
  · have hj : k = j := Std.LawfulEqCmp.eq_of_compare h
    subst hj
    rw [if_pos h, Option.map_eq_none_iff, List.find?_eq_none]
    intro e _
    simp
  · rw [if_neg h]
    congr 2
    funext e
    by_cases he : compare e.1 j = .eq
    · have hj : e.1 = j := Std.LawfulEqCmp.eq_of_compare he
      have hk : compare e.1 k ≠ .eq := fun heq =>
        h (by rw [← Std.LawfulEqCmp.eq_of_compare heq, he])
      simp [he, hk]
    · simp [he]

@[simp] theorem get?_erase_self (m : SortedMap κ β) (k : κ) : (m.erase k).get? k = none := by
  simp [get?_erase]

theorem get?_erase_of_ne (m : SortedMap κ β) {k j : κ} (h : k ≠ j) :
    (m.erase k).get? j = m.get? j := by
  rw [get?_erase, if_neg fun heq => h (Std.LawfulEqCmp.eq_of_compare heq)]

theorem get?_eq_some_iff {m : SortedMap κ β} {k : κ} {v : β} :
    m.get? k = some v ↔ (k, v) ∈ m.entries := by
  obtain ⟨es, hs⟩ := m
  unfold get?
  induction es with
  | nil => simp
  | cons e rest ih =>
    obtain ⟨he, hrest⟩ := List.pairwise_cons.mp hs
    by_cases h : compare e.1 k = .eq
    · have hk : e.1 = k := Std.LawfulEqCmp.eq_of_compare h
      have hnot : (k, v) ∉ rest := fun hm => by
        have hlt := he _ hm
        rw [h] at hlt
        cases hlt
      obtain ⟨a, b⟩ := e
      subst hk
      simp [hnot, eq_comm]
    · have hne : (k, v) ≠ e := fun heq => h (by simp [← heq])
      simp only [List.find?_cons, beq_eq_false_iff_ne.mpr h, List.mem_cons, hne, false_or]
      exact ih hrest

theorem get?_filterValues (m : SortedMap κ β) (p : β → Bool) (k : κ) :
    (m.filterValues p).get? k = (m.get? k).filter p := by
  ext v
  rw [get?_eq_some_iff, Option.filter_eq_some_iff, get?_eq_some_iff]
  simp [filterValues]

end LawfulKeys

variable [Std.TransOrd κ] [Std.LawfulEqOrd κ]

theorem sorted_insertEntry (k : κ) (v : β) {es : List (κ × β)}
    (h : es.Pairwise fun a b => compare a.1 b.1 = .lt) :
    (insertEntry k v es).Pairwise fun a b => compare a.1 b.1 = .lt := by
  induction es with
  | nil => simp [insertEntry]
  | cons e rest ih =>
    obtain ⟨he, hrest⟩ := List.pairwise_cons.mp h
    unfold insertEntry
    split
    next hlt =>
      refine List.pairwise_cons.mpr ⟨fun d hd => ?_, h⟩
      rcases List.mem_cons.mp hd with rfl | hd
      · exact hlt
      · exact Std.TransCmp.lt_trans hlt (he d hd)
    next heq =>
      refine List.pairwise_cons.mpr ⟨fun d hd => ?_, hrest⟩
      exact (Std.LawfulEqCmp.eq_of_compare heq) ▸ he d hd
    next hgt =>
      refine List.pairwise_cons.mpr ⟨fun d hd => ?_, ih hrest⟩
      rcases mem_insertEntry hd with rfl | hd
      · exact Std.OrientedCmp.gt_iff_lt.mp hgt
      · exact he d hd

def insert (m : SortedMap κ β) (k : κ) (v : β) : SortedMap κ β :=
  ⟨insertEntry k v m.entries, sorted_insertEntry k v m.sorted⟩

/-- Keeps the value that is already there. -/
def insertIfNew (m : SortedMap κ β) (k : κ) (v : β) : SortedMap κ β :=
  if m.contains k then m else m.insert k v

/-- Of several values for one key the last one stays. -/
def ofList (es : List (κ × β)) : SortedMap κ β :=
  es.foldl (fun m e => m.insert e.1 e.2) empty

theorem get?_insert (m : SortedMap κ β) (k j : κ) (v : β) :
    (m.insert k v).get? j = if compare k j = .eq then some v else m.get? j :=
  find?_insertEntry k j v m.entries

@[simp] theorem get?_insert_self (m : SortedMap κ β) (k : κ) (v : β) :
    (m.insert k v).get? k = some v := by
  simp [get?_insert]

theorem get?_insertIfNew (m : SortedMap κ β) (k j : κ) (v : β) :
    (m.insertIfNew k v).get? j =
      if compare k j = .eq then (m.get? k).or (some v) else m.get? j := by
  unfold insertIfNew contains
  cases h : m.get? k with
  | none => simp [get?_insert]
  | some w =>
    split
    · split
      next heq => rw [← Std.LawfulEqCmp.eq_of_compare heq, h, Option.some_or]
      next => rfl
    · simp_all

theorem get?_insert_of_ne (m : SortedMap κ β) {k j : κ} (v : β) (h : k ≠ j) :
    (m.insert k v).get? j = m.get? j := by
  rw [get?_insert, if_neg fun heq => h (Std.LawfulEqCmp.eq_of_compare heq)]

theorem ext_get? {m n : SortedMap κ β} (h : ∀ k, m.get? k = n.get? k) : m = n := by
  have hmem : ∀ e : κ × β, e ∈ m.entries ↔ e ∈ n.entries := fun e => by
    rw [← get?_eq_some_iff (k := e.1) (v := e.2), ← get?_eq_some_iff (k := e.1) (v := e.2), h]
  have irrefl : ∀ a b : κ × β, compare a.1 b.1 = .lt → compare b.1 a.1 = .lt → a = b :=
    fun a b hab hba => by
      rw [Std.OrientedCmp.gt_of_lt hab] at hba
      cases hba
  have nodup : ∀ l : SortedMap κ β, l.entries.Nodup := fun l =>
    l.sorted.imp fun hab heq => by simp [heq] at hab
  refine ext (List.Perm.eq_of_pairwise (fun a b _ _ => irrefl a b) m.sorted n.sorted ?_)
  exact (List.perm_ext_iff_of_nodup (nodup m) (nodup n)).mpr hmem

end SortedMap

end LazyCollections
