import LazyCollections.SortedMap
import Mathlib.Data.List.Nodup

/-!
# Many operations on one map

What the entries of a map are after one operation, and what stands under a key after many of one
kind. Of insertions under one key it is enough that they agree; their order does not matter then.
-/

namespace LazyCollections.SortedMap

set_option autoImplicit false

variable {κ β : Type} [Ord κ]
variable {m : SortedMap κ β} {k j : κ} {v w : β} {e : κ × β} {es : List (κ × β)} {ks : List κ}

theorem contains_iff : m.contains k = true ↔ ∃ v, m.get? k = some v :=
  Option.isSome_iff_exists

theorem contains_eq_false_iff : m.contains k = false ↔ m.get? k = none := by
  simp [contains]

theorem isEmpty_eq (m : SortedMap κ β) : decide (m.size = 0) = m.isEmpty := by
  rw [Bool.eq_iff_iff, decide_eq_true_eq]
  exact List.length_eq_zero_iff.trans List.isEmpty_iff.symm

theorem eq_empty_of_isEmpty (h : m.isEmpty = true) : m = empty :=
  ext (List.isEmpty_iff.mp h)

theorem erase_subset (m : SortedMap κ β) (k : κ) : (m.erase k).entries ⊆ m.entries :=
  List.filter_sublist.subset

theorem filterValues_subset (m : SortedMap κ β) (p : β → Bool) :
    (m.filterValues p).entries ⊆ m.entries :=
  List.filter_sublist.subset

theorem filterValues_eq_self {p : β → Bool} (h : (m.filterValues p).size = m.size) :
    m.filterValues p = m :=
  ext (List.filter_sublist.eq_of_length h)

theorem length_keys (m : SortedMap κ β) : m.keys.length = m.size :=
  List.length_map _

section LawfulKeys

variable [Std.LawfulEqOrd κ]

theorem get?_eq_none_iff : m.get? k = none ↔ ∀ e ∈ m.entries, e.1 ≠ k := by
  constructor
  · intro h e he heq
    obtain ⟨j, v⟩ := e
    have hsome := get?_eq_some_iff.mpr he
    rw [show j = k from heq, h] at hsome
    cases hsome
  · intro h
    cases hv : m.get? k with
    | none => rfl
    | some v => exact absurd rfl (h (k, v) (get?_eq_some_iff.mp hv))

theorem nodup_keys (m : SortedMap κ β) : m.keys.Nodup := by
  unfold keys
  rw [List.Nodup, List.pairwise_map]
  refine m.sorted.imp ?_
  intro a b hab heq
  have hself : compare b.1 b.1 = .eq := Std.ReflCmp.compare_self
  rw [heq, hself] at hab
  cases hab

theorem mem_keys_iff : k ∈ m.keys ↔ m.contains k = true := by
  simp only [keys, List.mem_map, contains_iff, get?_eq_some_iff]
  constructor
  · rintro ⟨e, he, rfl⟩
    exact ⟨e.2, he⟩
  · rintro ⟨v, hv⟩
    exact ⟨(k, v), hv, rfl⟩

theorem nodup_entries (m : SortedMap κ β) : m.entries.Nodup :=
  (List.pairwise_map.mp m.nodup_keys).imp fun hne heq => hne (congrArg Prod.fst heq)

theorem erase_of_none (h : m.get? k = none) : m.erase k = m := by
  apply ext
  apply List.filter_eq_self.mpr
  intro e he
  have hne : compare e.1 k ≠ .eq := fun heq =>
    get?_eq_none_iff.mp h e he (Std.LawfulEqCmp.eq_of_compare heq)
  simpa using hne

theorem get?_foldl_erase_of_notMem (h : k ∉ ks) (m : SortedMap κ β) :
    (ks.foldl erase m).get? k = m.get? k := by
  induction ks generalizing m with
  | nil => rfl
  | cons j ks ih =>
    have hne : j ≠ k := fun heq => h (heq ▸ List.mem_cons_self)
    rw [List.foldl_cons, ih (fun hk => h (List.mem_cons_of_mem j hk)), get?_erase_of_ne m hne]

theorem get?_foldl_erase_of_none (h : m.get? k = none) (ks : List κ) :
    (ks.foldl erase m).get? k = none := by
  induction ks generalizing m with
  | nil => exact h
  | cons j ks ih =>
    have hj : (m.erase j).get? k = none := by
      rw [get?_erase]
      split
      · rfl
      · exact h
    exact ih hj

theorem get?_foldl_erase_of_mem (h : k ∈ ks) (m : SortedMap κ β) :
    (ks.foldl erase m).get? k = none := by
  induction ks generalizing m with
  | nil => cases h
  | cons j ks ih =>
    rcases List.mem_cons.mp h with rfl | h
    · exact get?_foldl_erase_of_none (get?_erase_self m k) ks
    · exact ih h _

theorem get?_foldl_erase_eq_some_iff :
    (ks.foldl erase m).get? k = some v ↔ k ∉ ks ∧ m.get? k = some v := by
  by_cases hk : k ∈ ks
  · simp [get?_foldl_erase_of_mem hk, hk]
  · simp [get?_foldl_erase_of_notMem hk, hk]

end LawfulKeys

variable [Std.TransOrd κ] [Std.LawfulEqOrd κ]

theorem mem_entries_insert : e ∈ (m.insert k v).entries ↔ e = (k, v) ∨ e ∈ m.entries ∧ e.1 ≠ k := by
  obtain ⟨j, w⟩ := e
  rw [← get?_eq_some_iff, ← get?_eq_some_iff]
  by_cases hjk : k = j
  · subst hjk
    simp [eq_comm]
  · have hne : j ≠ k := fun h => hjk h.symm
    simp [get?_insert_of_ne m v hjk, hne]

theorem insertIfNew_of_none (h : m.get? k = none) : m.insertIfNew k v = m.insert k v := by
  simp [insertIfNew, contains, h]

theorem insertIfNew_of_some (h : m.get? k = some w) : m.insertIfNew k v = m := by
  simp [insertIfNew, contains, h]

theorem entries_insert_perm (h : m.get? k = none) :
    (m.insert k v).entries.Perm ((k, v) :: m.entries) := by
  refine (List.perm_ext_iff_of_nodup (nodup_entries _) ?_).mpr ?_
  · exact List.nodup_cons.mpr ⟨fun hmem => get?_eq_none_iff.mp h _ hmem rfl, m.nodup_entries⟩
  · intro e
    rw [mem_entries_insert, List.mem_cons]
    constructor
    · exact Or.imp_right And.left
    · exact Or.imp_right fun hmem => ⟨hmem, get?_eq_none_iff.mp h e hmem⟩

theorem get?_foldl_insert_of_notMem (h : ∀ e ∈ es, e.1 ≠ k) (m : SortedMap κ β) :
    (es.foldl (fun n e => n.insert e.1 e.2) m).get? k = m.get? k := by
  induction es generalizing m with
  | nil => rfl
  | cons d es ih =>
    rw [List.foldl_cons, ih fun e he => h e (List.mem_cons_of_mem d he),
      get?_insert_of_ne m d.2 (h d List.mem_cons_self)]

theorem get?_foldl_insert_of_some (hfun : ∀ e ∈ es, e.1 = k → e.2 = v) (h : m.get? k = some v) :
    (es.foldl (fun n e => n.insert e.1 e.2) m).get? k = some v := by
  induction es generalizing m with
  | nil => exact h
  | cons d es ih =>
    have hd : (m.insert d.1 d.2).get? k = some v := by
      by_cases heq : d.1 = k
      · rw [heq, get?_insert_self, hfun d List.mem_cons_self heq]
      · rw [get?_insert_of_ne m d.2 heq, h]
    exact ih (fun e he => hfun e (List.mem_cons_of_mem d he)) hd

theorem get?_foldl_insert_of_mem (hfun : ∀ e ∈ es, e.1 = k → e.2 = v) (h : (k, v) ∈ es)
    (m : SortedMap κ β) : (es.foldl (fun n e => n.insert e.1 e.2) m).get? k = some v := by
  induction es generalizing m with
  | nil => cases h
  | cons d es ih =>
    have hrest : ∀ e ∈ es, e.1 = k → e.2 = v := fun e he => hfun e (List.mem_cons_of_mem d he)
    rcases List.mem_cons.mp h with heq | h
    · rw [List.foldl_cons, ← heq]
      exact get?_foldl_insert_of_some hrest (get?_insert_self m k v)
    · exact ih hrest h _

theorem get?_foldl_insertIfNew_of_notMem (h : ∀ e ∈ es, e.1 ≠ k) (m : SortedMap κ β) :
    (es.foldl (fun n e => n.insertIfNew e.1 e.2) m).get? k = m.get? k := by
  induction es generalizing m with
  | nil => rfl
  | cons d es ih =>
    have hne : compare d.1 k ≠ .eq := fun heq =>
      h d List.mem_cons_self (Std.LawfulEqCmp.eq_of_compare heq)
    rw [List.foldl_cons, ih fun e he => h e (List.mem_cons_of_mem d he), get?_insertIfNew,
      if_neg hne]

theorem get?_foldl_insertIfNew_of_some (h : m.get? k = some v) (es : List (κ × β)) :
    (es.foldl (fun n e => n.insertIfNew e.1 e.2) m).get? k = some v := by
  induction es generalizing m with
  | nil => exact h
  | cons d es ih =>
    have hd : (m.insertIfNew d.1 d.2).get? k = some v := by
      rw [get?_insertIfNew]
      split
      next heq => rw [Std.LawfulEqCmp.eq_of_compare heq, h, Option.some_or]
      next => exact h
    exact ih hd

theorem get?_foldl_insertIfNew_of_mem (hfun : ∀ e ∈ es, e.1 = k → e.2 = v) (h : (k, v) ∈ es)
    (hm : m.get? k = none) : (es.foldl (fun n e => n.insertIfNew e.1 e.2) m).get? k = some v := by
  induction es generalizing m with
  | nil => cases h
  | cons d es ih =>
    rw [List.foldl_cons]
    by_cases heq : d.1 = k
    · apply get?_foldl_insertIfNew_of_some
      rw [heq, insertIfNew_of_none hm, get?_insert_self, hfun d List.mem_cons_self heq]
    · have hmem : (k, v) ∈ es := by
        rcases List.mem_cons.mp h with rfl | h
        · exact absurd rfl heq
        · exact h
      have hd : (m.insertIfNew d.1 d.2).get? k = none := by
        rw [get?_insertIfNew, if_neg fun h => heq (Std.LawfulEqCmp.eq_of_compare h), hm]
      exact ih (fun e he => hfun e (List.mem_cons_of_mem d he)) hmem hd

theorem ofList_eq (h : ∀ e, e ∈ es ↔ e ∈ m.entries) : ofList es = m := by
  apply ext_get?
  intro k
  cases hk : m.get? k with
  | none =>
    apply get?_foldl_insert_of_notMem
    intro e he
    exact get?_eq_none_iff.mp hk e ((h e).mp he)
  | some v =>
    apply get?_foldl_insert_of_mem
    · intro e he heq
      have hv := get?_eq_some_iff.mpr ((h e).mp he)
      rw [heq, hk] at hv
      exact (Option.some.inj hv).symm
    · exact (h _).mpr (get?_eq_some_iff.mp hk)

theorem mem_entries_ofList (h : (es.map Prod.fst).Nodup) : e ∈ (ofList es).entries ↔ e ∈ es := by
  have hfun : ∀ {k : κ} {v : β}, (k, v) ∈ es → ∀ d ∈ es, d.1 = k → d.2 = v := fun hv d hd hk =>
    congrArg Prod.snd (List.inj_on_of_nodup_map h hd hv hk)
  obtain ⟨k, v⟩ := e
  rw [← get?_eq_some_iff]
  constructor
  · intro hget
    by_cases hk : ∃ w, (k, w) ∈ es
    · obtain ⟨w, hw⟩ := hk
      rw [ofList, get?_foldl_insert_of_mem (hfun hw) hw] at hget
      rwa [← Option.some.inj hget]
    · have hnone : ∀ d ∈ es, d.1 ≠ k := fun d hd heq => hk ⟨d.2, heq ▸ hd⟩
      rw [ofList, get?_foldl_insert_of_notMem hnone] at hget
      cases hget
  · intro hv
    exact get?_foldl_insert_of_mem (hfun hv) hv _

theorem entries_ofList_perm (h : (es.map Prod.fst).Nodup) : (ofList es).entries.Perm es :=
  (List.perm_ext_iff_of_nodup (nodup_entries _) (List.Nodup.of_map Prod.fst h)).mpr fun _ =>
    mem_entries_ofList h

theorem insert_insert_self (m : SortedMap κ β) (k : κ) (v w : β) :
    (m.insert k v).insert k w = m.insert k w := by
  apply ext_get?
  intro j
  by_cases hkj : k = j
  · simp [hkj]
  · simp [get?_insert_of_ne _ _ hkj]

theorem insert_comm (m : SortedMap κ β) (h : k ≠ j) (v w : β) :
    (m.insert k v).insert j w = (m.insert j w).insert k v := by
  apply ext_get?
  intro i
  by_cases hki : k = i
  · subst hki
    rw [get?_insert_of_ne _ _ h.symm, get?_insert_self, get?_insert_self]
  · rw [get?_insert_of_ne _ v hki]
    by_cases hji : j = i
    · simp [hji]
    · rw [get?_insert_of_ne _ _ hji, get?_insert_of_ne _ _ hji, get?_insert_of_ne _ _ hki]

theorem erase_insert_self (m : SortedMap κ β) (k : κ) (v : β) :
    (m.insert k v).erase k = m.erase k := by
  apply ext_get?
  intro j
  by_cases hkj : k = j
  · simp [hkj]
  · rw [get?_erase_of_ne _ hkj, get?_erase_of_ne _ hkj, get?_insert_of_ne _ _ hkj]

theorem erase_insert_of_ne (m : SortedMap κ β) (h : j ≠ k) (v : β) :
    (m.insert j v).erase k = (m.erase k).insert j v := by
  apply ext_get?
  intro i
  by_cases hki : k = i
  · subst hki
    rw [get?_erase_self, get?_insert_of_ne _ _ h, get?_erase_self]
  · rw [get?_erase_of_ne _ hki]
    by_cases hji : j = i
    · simp [hji]
    · rw [get?_insert_of_ne _ _ hji, get?_insert_of_ne _ _ hji, get?_erase_of_ne _ hki]

theorem erase_insertIfNew_of_ne (m : SortedMap κ β) (h : j ≠ k) (v : β) :
    (m.insertIfNew j v).erase k = (m.erase k).insertIfNew j v := by
  cases hget : m.get? j with
  | some w =>
    have herased : (m.erase k).get? j = some w := by rw [get?_erase_of_ne m h.symm, hget]
    rw [insertIfNew_of_some hget, insertIfNew_of_some herased]
  | none =>
    have herased : (m.erase k).get? j = none := by rw [get?_erase_of_ne m h.symm, hget]
    rw [insertIfNew_of_none hget, insertIfNew_of_none herased, erase_insert_of_ne m h]

theorem erase_insertIfNew_self (m : SortedMap κ β) (k : κ) (v : β) :
    (m.insertIfNew k v).erase k = m.erase k := by
  cases hget : m.get? k with
  | some w => rw [insertIfNew_of_some hget]
  | none => rw [insertIfNew_of_none hget, erase_insert_self]

section Items

variable {α : Type} {key : α → κ} {value : α → β} {xs : List α} {p : α → Bool}

theorem get?_foldl_insert_eq_none_iff :
    (xs.foldl (fun n x => n.insert (key x) (value x)) m).get? k = none ↔
      m.get? k = none ∧ ∀ x ∈ xs, key x ≠ k := by
  induction xs generalizing m with
  | nil => simp
  | cons x xs ih =>
    rw [List.foldl_cons, ih, List.forall_mem_cons]
    by_cases hx : key x = k
    · simp [hx]
    · rw [get?_insert_of_ne _ _ hx]
      simp [hx]

theorem get?_foldl_insert_eq_some_iff (hxs : xs.Pairwise fun x y => key x ≠ key y) {v : β} :
    (xs.foldl (fun n x => n.insert (key x) (value x)) m).get? k = some v ↔
      (∃ x ∈ xs, key x = k ∧ value x = v) ∨ (∀ x ∈ xs, key x ≠ k) ∧ m.get? k = some v := by
  induction xs generalizing m with
  | nil => simp
  | cons x xs ih =>
    obtain ⟨hx, hxs⟩ := List.pairwise_cons.mp hxs
    rw [List.foldl_cons, ih hxs]
    by_cases hk : key x = k
    · subst hk
      have hnone : ¬ ∃ y ∈ xs, key y = key x ∧ value y = v := by
        rintro ⟨y, hy, hkey, -⟩
        exact hx y hy hkey.symm
      have hall : ∀ y ∈ xs, key y ≠ key x := fun y hy => (hx y hy).symm
      simpa [hnone] using fun _ => hall
    · rw [get?_insert_of_ne m (value x) hk]
      simp [hk]

theorem get?_foldl_insertIfNew_eq_none_iff :
    (xs.foldl (fun n x => n.insertIfNew (key x) (value x)) m).get? k = none ↔
      m.get? k = none ∧ ∀ x ∈ xs, key x ≠ k := by
  induction xs generalizing m with
  | nil => simp
  | cons x xs ih =>
    rw [List.foldl_cons, ih, List.forall_mem_cons, get?_insertIfNew]
    by_cases hx : key x = k
    · simp [hx]
    · rw [if_neg fun heq => hx (Std.LawfulEqCmp.eq_of_compare heq)]
      simp [hx]

theorem erase_foldl_insert (hp : ∀ x ∈ xs, p x = true ↔ key x ≠ k) (m : SortedMap κ β) :
    (xs.foldl (fun n x => n.insert (key x) (value x)) m).erase k =
      (xs.filter p).foldl (fun n x => n.insert (key x) (value x)) (m.erase k) := by
  induction xs generalizing m with
  | nil => rfl
  | cons x xs ih =>
    have hx := hp x List.mem_cons_self
    rw [List.foldl_cons, ih fun y hy => hp y (List.mem_cons_of_mem x hy)]
    by_cases hkey : key x = k
    · rw [List.filter_cons_of_neg (fun h => hx.mp h hkey), hkey, erase_insert_self]
    · rw [List.filter_cons_of_pos (hx.mpr hkey), List.foldl_cons, erase_insert_of_ne m hkey]

theorem erase_foldl_insertIfNew (hp : ∀ x ∈ xs, p x = true ↔ key x ≠ k) (m : SortedMap κ β) :
    (xs.foldl (fun n x => n.insertIfNew (key x) (value x)) m).erase k =
      (xs.filter p).foldl (fun n x => n.insertIfNew (key x) (value x)) (m.erase k) := by
  induction xs generalizing m with
  | nil => rfl
  | cons x xs ih =>
    have hx := hp x List.mem_cons_self
    rw [List.foldl_cons, ih fun y hy => hp y (List.mem_cons_of_mem x hy)]
    by_cases hkey : key x = k
    · rw [List.filter_cons_of_neg (fun h => hx.mp h hkey), hkey, erase_insertIfNew_self]
    · rw [List.filter_cons_of_pos (hx.mpr hkey), List.foldl_cons, erase_insertIfNew_of_ne m hkey]

theorem insert_foldl_insert_of_notMem (h : ∀ x ∈ xs, key x ≠ k) (m : SortedMap κ β) (v : β) :
    (xs.foldl (fun n x => n.insert (key x) (value x)) m).insert k v =
      xs.foldl (fun n x => n.insert (key x) (value x)) (m.insert k v) := by
  induction xs generalizing m with
  | nil => rfl
  | cons x xs ih =>
    rw [List.foldl_cons, ih fun y hy => h y (List.mem_cons_of_mem x hy), List.foldl_cons,
      insert_comm m (h x List.mem_cons_self)]

/-- A later insertion under a key may be made instead of the one that is there. -/
theorem insert_foldl_insert_of_mem {change : α → α} (hkey : ∀ x, key (change x) = key x)
    (hunique : xs.Pairwise fun x y => key x ≠ key y)
    (hchanged : ∀ x ∈ xs, key x = k → value (change x) = v)
    (hsame : ∀ x ∈ xs, key x ≠ k → change x = x)
    (hmem : ∃ x ∈ xs, key x = k) (m : SortedMap κ β) :
    (xs.foldl (fun n x => n.insert (key x) (value x)) m).insert k v =
      (xs.map change).foldl (fun n x => n.insert (key x) (value x)) m := by
  induction xs generalizing m with
  | nil =>
    obtain ⟨x, hx, _⟩ := hmem
    cases hx
  | cons x xs ih =>
    obtain ⟨hx, hxs⟩ := List.pairwise_cons.mp hunique
    rw [List.foldl_cons, List.map_cons, List.foldl_cons, hkey]
    by_cases heq : key x = k
    · have hnot : ∀ y ∈ xs, key y ≠ k := fun y hy hyk => hx y hy (heq.trans hyk.symm)
      have hrest : xs.map change = xs :=
        (List.map_congr_left fun y hy => hsame y (List.mem_cons_of_mem x hy) (hnot y hy)).trans
          (List.map_id xs)
      rw [insert_foldl_insert_of_notMem hnot, heq, insert_insert_self, hrest,
        hchanged x List.mem_cons_self heq]
    · obtain ⟨y, hy, hyk⟩ := hmem
      rcases List.mem_cons.mp hy with rfl | hy
      · exact absurd hyk heq
      · rw [hsame x List.mem_cons_self heq]
        exact ih hxs (fun z hz => hchanged z (List.mem_cons_of_mem x hz))
          (fun z hz => hsame z (List.mem_cons_of_mem x hz)) ⟨y, hy, hyk⟩ _

end Items

end LazyCollections.SortedMap
