import LazyCollections.Proofs.Cbor.Decoded

/-!
# Entries in key order

The canonical order is a total order of values: reversing a comparison turns it around, only a value
itself compares as equal to it, and the order carries over. So the entries of a map have one order
if their keys are distinct, entries of equal keys stay in the order in which they came and stand
next to each other, and a repeated key is found by looking at neighbours.
-/

namespace LazyCollections

set_option autoImplicit false

namespace Value

theorem sortEntries_sortEntries (es : List (Value × Value)) :
    sortEntries (sortEntries es) = sortEntries es := by
  rw [sortEntries_eq_insertionSort, (pairwise_sortEntries es).insertionSort_eq]

theorem filter_sortEntries (k : Value) (es : List (Value × Value)) :
    ((sortEntries es).filter fun e => e.1 = k) = es.filter fun e => e.1 = k := by
  rw [sortEntries_eq_insertionSort]
  refine StableSort.filter_insertionSort_keyOrder (fun d e hd he => ?_) es
  exact (of_decide_eq_true hd).trans (of_decide_eq_true he).symm

theorem exists_ofDistinctEntries_iff {es : List (Value × Value)} :
    (∃ v, ofDistinctEntries es = .ok v) ↔ (es.map Prod.fst).Nodup := by
  constructor
  · rintro ⟨v, hv⟩
    exact (ofDistinctEntries_eq_ok hv).1
  · intro h
    exact ⟨_, ofDistinctEntries_of_nodup h⟩

/-- The canonical order is a total order of values, and a map is its entries sorted by it: whatever
order they come in if their keys are distinct, and with equal keys side by side as they came. -/
theorem canonicalOrder_sorts :
    (∀ a b c : Value,
      compareCanonical a b = (compareCanonical b a).swap ∧
      (compareCanonical a b = .eq ↔ a = b) ∧
      ((compareCanonical a b).isLE → (compareCanonical b c).isLE →
        (compareCanonical a c).isLE)) ∧
    ∀ es : List (Value × Value), ∃ sorted, ofEntries es = map sorted ∧
      sorted.Perm es ∧
      (sorted.Pairwise fun d e => (compareCanonical d.1 e.1).isLE) ∧
      (∀ fs, es.Perm fs → (es.map Prod.fst).Nodup → ofEntries fs = map sorted) ∧
      ofEntries sorted = map sorted ∧
      (∀ k, (sorted.filter fun e => e.1 = k) = es.filter fun e => e.1 = k) ∧
      (∀ front d between e back, sorted = front ++ d :: (between ++ e :: back) → d.1 = e.1 →
        ∀ f ∈ between, f.1 = d.1) ∧
      ((∃ v, ofDistinctEntries es = .ok v) ↔ (es.map Prod.fst).Nodup) := by
  constructor
  · intro a b c
    have hswap : compare a b = (compare b a).swap := Std.OrientedCmp.eq_swap
    have heq : compare a b = .eq ↔ a = b := Std.LawfulEqCmp.compare_eq_iff_eq
    have htrans : (compare a b).isLE → (compare b c).isLE → (compare a c).isLE :=
      Std.TransCmp.isLE_trans
    exact ⟨hswap, heq, htrans⟩
  · intro es
    refine ⟨sortEntries es, rfl, sortEntries_perm es, pairwise_sortEntries es, ?_, ?_,
      fun k => filter_sortEntries k es, ?_, exists_ofDistinctEntries_iff⟩
    · intro fs hperm hdistinct
      rw [ofEntries, sortEntries_eq_of_perm hperm hdistinct]
    · rw [ofEntries, sortEntries_sortEntries]
    · intro front d between e back hsorted hkeys f hf
      have hordered := pairwise_sortEntries es
      rw [hsorted] at hordered
      exact StableSort.key_eq_of_between hordered hkeys hf

end Value

end LazyCollections
