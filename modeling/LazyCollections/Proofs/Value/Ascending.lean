import LazyCollections.Proofs.Value.Rearranged

/-!
# Values in canonical form

A value is in canonical form if the keys of every map in it strictly increase. Such a value is its
own canonical form and holds no key twice. Sorting entries with distinct keys brings them into this
form.
-/

namespace LazyCollections

set_option autoImplicit false

namespace Value

mutual

/-- In every map, also inside keys, the keys strictly increase. -/
def Ascending : Value → Prop
  | array items => AscendingItems items
  | map entries =>
    entries.Pairwise (fun a b => compareCanonical a.1 b.1 = .lt) ∧ AscendingEntries entries
  | _ => True

def AscendingItems : List Value → Prop
  | [] => True
  | v :: vs => Ascending v ∧ AscendingItems vs

def AscendingEntries : List (Value × Value) → Prop
  | [] => True
  | (k, v) :: es => Ascending k ∧ Ascending v ∧ AscendingEntries es

end

theorem ascendingEntries_iff {es : List (Value × Value)} :
    AscendingEntries es ↔ ∀ e ∈ es, e.1.Ascending ∧ e.2.Ascending := by
  induction es with
  | nil => simp [AscendingEntries]
  | cons e es ih => simp [AscendingEntries, ih, and_assoc]

theorem nodup_keys_of_pairwise_lt {es : List (Value × Value)}
    (h : es.Pairwise fun a b => compareCanonical a.1 b.1 = .lt) : (es.map Prod.fst).Nodup := by
  rw [List.Nodup, List.pairwise_map]
  refine h.imp fun {a b} hlt heq => ?_
  have hself : compare a.1 a.1 = .eq := Std.ReflCmp.compare_self
  rw [← heq] at hlt
  exact nomatch hself.symm.trans hlt

theorem sortEntries_eq_self {es : List (Value × Value)}
    (h : es.Pairwise fun a b => compareCanonical a.1 b.1 = .lt) : sortEntries es = es := by
  rw [sortEntries_eq_insertionSort]
  refine (h.imp fun {a b} hlt => ?_).insertionSort_eq
  have hle : (compareCanonical a.1 b.1).isLE = true := by rw [hlt]; rfl
  exact hle

theorem pairwise_lt_sortEntries {es : List (Value × Value)} (h : (es.map Prod.fst).Nodup) :
    (sortEntries es).Pairwise fun a b => compareCanonical a.1 b.1 = .lt := by
  have hle := pairwise_sortEntries es
  have hne := StableSort.pairwise_key_ne_of_repeated? hle (repeated?_sortEntries_eq_none_iff.mpr h)
  refine (hle.and hne).imp fun {a b} hab => ?_
  obtain ⟨hle, hne⟩ := hab
  rcases Ordering.isLE_iff_eq_lt_or_eq_eq.mp hle with hlt | heq
  · exact hlt
  · exact absurd (Std.LawfulEqOrd.eq_of_compare heq) hne

theorem ascending_map_sortEntries {es : List (Value × Value)} (hdistinct : (es.map Prod.fst).Nodup)
    (h : AscendingEntries es) : (map (sortEntries es)).Ascending := by
  refine ⟨pairwise_lt_sortEntries hdistinct, ascendingEntries_iff.mpr fun e he => ?_⟩
  exact ascendingEntries_iff.mp h e ((sortEntries_perm es).mem_iff.mp he)

mutual

theorem Ascending.canonical_eq {v : Value} (h : v.Ascending) : v.canonical = v := by
  cases v with
  | null => rfl
  | bool b => rfl
  | integer n => rfl
  | bytes bs => rfl
  | text s => rfl
  | array items => rw [canonical, AscendingItems.canonical_eq h]
  | map entries => rw [canonical, AscendingEntries.canonical_eq h.2, sortEntries_eq_self h.1]

theorem AscendingItems.canonical_eq {vs : List Value} (h : AscendingItems vs) :
    canonicalItems vs = vs := by
  cases vs with
  | nil => rfl
  | cons v vs => rw [canonicalItems, Ascending.canonical_eq h.1, AscendingItems.canonical_eq h.2]

theorem AscendingEntries.canonical_eq {es : List (Value × Value)} (h : AscendingEntries es) :
    canonicalEntries es = es := by
  cases es with
  | nil => rfl
  | cons e es =>
    obtain ⟨k, v⟩ := e
    rw [canonicalEntries, Ascending.canonical_eq h.1, Ascending.canonical_eq h.2.1,
      AscendingEntries.canonical_eq h.2.2]

end

mutual

theorem Ascending.distinctKeys {v : Value} (h : v.Ascending) : v.DistinctKeys := by
  cases v with
  | null => trivial
  | bool b => trivial
  | integer n => trivial
  | bytes bs => trivial
  | text s => trivial
  | array items => exact AscendingItems.distinctKeys h
  | map entries =>
    refine ⟨?_, AscendingEntries.distinctKeys h.2⟩
    rw [AscendingEntries.canonical_eq h.2]
    exact nodup_keys_of_pairwise_lt h.1

theorem AscendingItems.distinctKeys {vs : List Value} (h : AscendingItems vs) :
    DistinctKeysInItems vs := by
  cases vs with
  | nil => trivial
  | cons v vs => exact ⟨Ascending.distinctKeys h.1, AscendingItems.distinctKeys h.2⟩

theorem AscendingEntries.distinctKeys {es : List (Value × Value)} (h : AscendingEntries es) :
    DistinctKeysInEntries es := by
  cases es with
  | nil => trivial
  | cons e es =>
    obtain ⟨k, v⟩ := e
    exact ⟨Ascending.distinctKeys h.1, Ascending.distinctKeys h.2.1,
      AscendingEntries.distinctKeys h.2.2⟩

end

end Value

end LazyCollections
