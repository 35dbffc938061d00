import Mathlib.Data.List.Nodup
import Mathlib.Data.List.Sort
import LazyCollections.StableSort

/-!
# Sorting by keys

Items that are sorted by a key, in a total order of the keys, have only one order if their keys are
distinct. Whether they are is seen from neighbours alone, since equal keys stand next to each other.
-/

namespace LazyCollections.StableSort

set_option autoImplicit false

variable {α κ : Type} {cmp : κ → κ → Ordering} {key : α → κ}

theorem insertBy_eq_orderedInsert (le : α → α → Bool) (x : α) (xs : List α) :
    insertBy le x xs = xs.orderedInsert (fun a b => le a b) x := by
  induction xs with
  | nil => rfl
  | cons y ys ih => rw [insertBy, List.orderedInsert_cons, ih]

theorem sortBy_eq_insertionSort (le : α → α → Bool) (xs : List α) :
    sortBy le xs = xs.insertionSort fun a b => le a b := by
  induction xs with
  | nil => rfl
  | cons x xs ih =>
    rw [List.insertionSort_cons, ← ih, ← insertBy_eq_orderedInsert]
    rfl

def keyOrder (cmp : κ → κ → Ordering) (key : α → κ) (a b : α) : Bool :=
  (cmp (key a) (key b)).isLE

variable [Std.TransCmp cmp]

instance : IsTrans α fun a b => keyOrder cmp key a b :=
  ⟨fun _ _ _ hab hbc => Std.TransCmp.isLE_trans hab hbc⟩

instance : Std.Total (fun a b => keyOrder cmp key a b : α → α → Prop) where
  total a b := by
    have hswap : cmp (key a) (key b) = (cmp (key b) (key a)).swap := Std.OrientedCmp.eq_swap
    rw [keyOrder, keyOrder, hswap]
    cases cmp (key b) (key a) <;> simp

/-- Items of one key keep their order. They are a sorted part of the list, which sorting leaves as it
is, and no others of the key come in. -/
theorem filter_insertionSort_keyOrder {p : α → Bool} (hp : ∀ a b, p a → p b → key a = key b)
    (xs : List α) :
    (xs.insertionSort fun a b => keyOrder cmp key a b).filter p = xs.filter p := by
  have hsorted : (xs.filter p).Pairwise fun a b => keyOrder cmp key a b := by
    refine List.pairwise_of_forall_mem_list fun a ha b hb => ?_
    have hself : cmp (key b) (key b) = .eq := Std.ReflCmp.compare_self
    rw [keyOrder, hp a b (List.mem_filter.mp ha).2 (List.mem_filter.mp hb).2, hself]
    rfl
  have hpart := (List.sublist_insertionSort hsorted List.filter_sublist).filter p
  rw [List.filter_filter] at hpart
  simp only [Bool.and_self] at hpart
  have hlength := ((List.perm_insertionSort (fun a b => keyOrder cmp key a b) xs).filter p).length_eq
  exact (hpart.eq_of_length hlength.symm).symm

variable [Std.LawfulEqCmp cmp]

theorem key_eq_of_keyOrder {a b : α} (hab : keyOrder cmp key a b) (hba : keyOrder cmp key b a) :
    key a = key b :=
  Std.LawfulEqCmp.eq_of_compare (Std.OrientedCmp.isLE_antisymm hab hba)

theorem insertionSort_keyOrder_eq_of_perm {xs ys : List α} (h : xs.Perm ys)
    (hdistinct : (xs.map key).Nodup) :
    (xs.insertionSort fun a b => keyOrder cmp key a b) =
      ys.insertionSort fun a b => keyOrder cmp key a b := by
  have hperm := (List.perm_insertionSort (fun a b => keyOrder cmp key a b) xs).trans
    (h.trans (List.perm_insertionSort (fun a b => keyOrder cmp key a b) ys).symm)
  refine List.Perm.eq_of_pairwise ?_ (List.pairwise_insertionSort _ xs)
    (List.pairwise_insertionSort _ ys) hperm
  intro a b ha hb hab hba
  have ha : a ∈ xs := (List.mem_insertionSort _).mp ha
  have hb : b ∈ xs := h.mem_iff.mpr ((List.mem_insertionSort _).mp hb)
  exact List.inj_on_of_nodup_map hdistinct ha hb (key_eq_of_keyOrder hab hba)

/-- Items of equal keys stand next to each other: none of another key is between them. -/
theorem key_eq_of_between {front between back : List α} {a b c : α}
    (hsorted : (front ++ a :: (between ++ b :: back)).Pairwise fun x y => keyOrder cmp key x y)
    (hab : key a = key b) (hc : c ∈ between) : key c = key a := by
  obtain ⟨hafter, hrest⟩ := List.pairwise_cons.mp (List.pairwise_append.mp hsorted).2.1
  have hac : keyOrder cmp key a c := hafter c (List.mem_append_left _ hc)
  have hcb : keyOrder cmp key c b :=
    (List.pairwise_append.mp hrest).2.2 c hc b List.mem_cons_self
  have hca : keyOrder cmp key c a := by rwa [keyOrder, hab]
  exact key_eq_of_keyOrder hca hac

variable [BEq κ] [LawfulBEq κ]

theorem pairwise_key_ne_of_repeated? {xs : List α}
    (hsorted : xs.Pairwise fun a b => keyOrder cmp key a b)
    (h : repeated? (fun a b => key a == key b) xs = none) :
    xs.Pairwise fun a b => key a ≠ key b := by
  induction xs with
  | nil => exact List.Pairwise.nil
  | cons a xs ih =>
    cases xs with
    | nil => exact List.pairwise_singleton _ _
    | cons b xs =>
      rw [repeated?] at h
      split at h
      next => cases h
      next hab =>
        have hab : key a ≠ key b := by simpa using hab
        obtain ⟨hle, hsorted⟩ := List.pairwise_cons.mp hsorted
        refine List.pairwise_cons.mpr ⟨?_, ih hsorted h⟩
        intro c hc hac
        rcases List.mem_cons.mp hc with rfl | hc
        · exact hab hac
        · have hbc : keyOrder cmp key b c := (List.pairwise_cons.mp hsorted).1 c hc
          have hba : keyOrder cmp key b a := by rwa [keyOrder, hac]
          exact hab (key_eq_of_keyOrder (hle b List.mem_cons_self) hba)

theorem repeated?_eq_none {xs : List α} (h : xs.Pairwise fun a b => key a ≠ key b) :
    repeated? (fun a b => key a == key b) xs = none := by
  induction xs with
  | nil => rfl
  | cons a xs ih =>
    cases xs with
    | nil => rfl
    | cons b xs =>
      obtain ⟨ha, hxs⟩ := List.pairwise_cons.mp h
      rw [repeated?, if_neg (by simpa using ha b List.mem_cons_self), ih hxs]

variable (cmp key) in
theorem repeated?_insertionSort_eq_none_iff {xs : List α} :
    repeated? (fun a b => key a == key b) (xs.insertionSort fun a b => keyOrder cmp key a b) =
        none ↔
      (xs.map key).Nodup := by
  have hperm := (List.perm_insertionSort (fun a b => keyOrder cmp key a b) xs).map key
  rw [← hperm.nodup_iff, List.Nodup, List.pairwise_map]
  exact ⟨pairwise_key_ne_of_repeated? (List.pairwise_insertionSort _ xs), repeated?_eq_none⟩

end LazyCollections.StableSort
