import LazyCollections.Proofs.StableSort
import LazyCollections.Value.Order

/-!
# Laws of the canonical order

The canonical order is a total order of values: it is the lexicographic order of the marks of a
value, which list its kind, its length and its parts from the outside to the inside. So the entries
of a map whose keys are distinct have only one canonical order, however they came.
-/

namespace LazyCollections

set_option autoImplicit false

namespace Value

/-- What is compared at one point of a value. -/
structure Mark where
  number : Nat := 0
  integer : Int64 := 0
  bytes : List UInt8 := []
  text : String := ""

namespace Mark

instance : Ord Mark :=
  ⟨compareLex (compareOn number)
    (compareLex (compareOn integer) (compareLex (compareOn bytes) (compareOn text)))⟩

instance : Std.TransOrd Mark :=
  inferInstanceAs (Std.TransCmp (compareLex (compareOn number)
    (compareLex (compareOn integer) (compareLex (compareOn bytes) (compareOn text)))))

theorem compare_eq (a b : Mark) :
    compare a b = (compare a.number b.number).then ((compare a.integer b.integer).then
      ((compare a.bytes b.bytes).then (compare a.text b.text))) := rfl

end Mark

mutual

/-- The marks of a value, in the order in which they decide a comparison. -/
def marks : Value → List Mark
  | integer n => [{ number := 0 }, { integer := n }]
  | bytes bs => [{ number := 1 }, { number := bs.length, bytes := bs }]
  | text s => [{ number := 2 }, { number := s.utf8ByteSize, text := s }]
  | array items => { number := 3 } :: { number := items.length } :: marksOfItems items
  | map entries => { number := 4 } :: { number := entries.length } :: marksOfEntries entries
  | bool b => [{ number := 5 }, { number := b.toNat }]
  | null => [{ number := 6 }]

def marksOfItems : List Value → List Mark
  | [] => []
  | v :: vs => marks v ++ marksOfItems vs

def marksOfEntries : List (Value × Value) → List Mark
  | [] => []
  | (k, v) :: es => marks k ++ (marks v ++ marksOfEntries es)

end

theorem compare_cons (a b : Mark) (x y : List Mark) :
    compare (a :: x) (b :: y) = (compare a b).then (compare x y) :=
  List.compareLex_cons_cons

@[simp] theorem compare_number (m n : Nat) :
    compare ({ number := m } : Mark) { number := n } = compare m n := by
  simp [Mark.compare_eq]

theorem marks_eq (v : Value) : ∃ rest, marks v = { number := v.rank } :: rest := by
  cases v <;> exact ⟨_, rfl⟩

theorem compareCanonical_of_rank_ne {a b : Value} (h : a.rank ≠ b.rank) :
    compareCanonical a b = compare a.rank b.rank := by
  cases a <;> cases b <;> first | rfl | exact absurd rfl h

theorem compare_bool (a b : Bool) : compare a.toNat b.toNat = compare a b := by
  cases a <;> cases b <;> rfl

mutual

/-- The marks of two values decide as the values do, whatever follows them. -/
theorem compare_marks_append (a b : Value) (x y : List Mark) :
    compare (marks a ++ x) (marks b ++ y) = (compareCanonical a b).then (compare x y) := by
  by_cases hrank : a.rank = b.rank
  · cases a <;> cases b <;> simp [rank] at hrank
    case array.array as bs =>
      simp only [marks, List.cons_append, compare_cons, compare_number, compareCanonical,
        Std.ReflCmp.compare_self, Ordering.eq_then, Ordering.then_assoc]
      cases hlength : compare as.length bs.length with
      | lt => rfl
      | gt => rfl
      | eq => exact compare_marksOfItems_append as bs (Std.LawfulEqOrd.eq_of_compare hlength) x y
    case map.map as bs =>
      simp only [marks, List.cons_append, compare_cons, compare_number, compareCanonical,
        Std.ReflCmp.compare_self, Ordering.eq_then, Ordering.then_assoc]
      cases hlength : compare as.length bs.length with
      | lt => rfl
      | gt => rfl
      | eq =>
        exact compare_marksOfEntries_append as bs (Std.LawfulEqOrd.eq_of_compare hlength) x y
    all_goals simp [marks, Mark.compare_eq, compareCanonical, compare_bool]
  · obtain ⟨restA, hA⟩ := marks_eq a
    obtain ⟨restB, hB⟩ := marks_eq b
    have hne : compare a.rank b.rank ≠ .eq := fun h => hrank (Std.LawfulEqOrd.eq_of_compare h)
    rw [compareCanonical_of_rank_ne hrank, hA, hB, List.cons_append, List.cons_append,
      compare_cons, compare_number]
    cases h : compare a.rank b.rank <;> simp_all

theorem compare_marksOfItems_append (as bs : List Value) (h : as.length = bs.length)
    (x y : List Mark) :
    compare (marksOfItems as ++ x) (marksOfItems bs ++ y) =
      (compareItems as bs).then (compare x y) := by
  cases as with
  | nil =>
    cases bs with
    | nil => simp [marksOfItems, compareItems]
    | cons b bs => cases h
  | cons a as =>
    cases bs with
    | nil => cases h
    | cons b bs =>
      simp only [marksOfItems, compareItems, List.append_assoc, Ordering.then_assoc,
        compare_marks_append a b,
        compare_marksOfItems_append as bs (Nat.succ.inj h)]

theorem compare_marksOfEntries_append (as bs : List (Value × Value)) (h : as.length = bs.length)
    (x y : List Mark) :
    compare (marksOfEntries as ++ x) (marksOfEntries bs ++ y) =
      (compareEntries as bs).then (compare x y) := by
  cases as with
  | nil =>
    cases bs with
    | nil => simp [marksOfEntries, compareEntries]
    | cons b bs => cases h
  | cons a as =>
    cases bs with
    | nil => cases h
    | cons b bs =>
      obtain ⟨k, v⟩ := a
      obtain ⟨l, w⟩ := b
      simp only [marksOfEntries, compareEntries, List.append_assoc, Ordering.then_assoc,
        compare_marks_append k l, compare_marks_append v w,
        compare_marksOfEntries_append as bs (Nat.succ.inj h)]

end

theorem compareCanonical_eq (a b : Value) : compareCanonical a b = compare (marks a) (marks b) := by
  have h := compare_marks_append a b [] []
  simpa using h.symm

mutual

theorem eq_of_compareCanonical {a b : Value} (h : compareCanonical a b = .eq) : a = b := by
  by_cases hrank : a.rank = b.rank
  · cases a <;> cases b <;> simp [rank] at hrank <;> simp [compareCanonical] at h
    case array.array as bs =>
      exact congrArg array (eq_of_compareItems h.1 h.2)
    case map.map as bs =>
      exact congrArg map (eq_of_compareEntries h.1 h.2)
    all_goals simp_all
  · rw [compareCanonical_of_rank_ne hrank] at h
    exact absurd (Std.LawfulEqOrd.eq_of_compare h) hrank

theorem eq_of_compareItems {as bs : List Value} (hlength : as.length = bs.length)
    (h : compareItems as bs = .eq) : as = bs := by
  cases as with
  | nil =>
    cases bs with
    | nil => rfl
    | cons b bs => cases hlength
  | cons a as =>
    cases bs with
    | nil => cases hlength
    | cons b bs =>
      obtain ⟨hhead, htail⟩ := Ordering.then_eq_eq.mp h
      rw [eq_of_compareCanonical hhead, eq_of_compareItems (Nat.succ.inj hlength) htail]

theorem eq_of_compareEntries {as bs : List (Value × Value)} (hlength : as.length = bs.length)
    (h : compareEntries as bs = .eq) : as = bs := by
  cases as with
  | nil =>
    cases bs with
    | nil => rfl
    | cons b bs => cases hlength
  | cons a as =>
    cases bs with
    | nil => cases hlength
    | cons b bs =>
      obtain ⟨k, v⟩ := a
      obtain ⟨l, w⟩ := b
      obtain ⟨hhead, htail⟩ := Ordering.then_eq_eq.mp h
      obtain ⟨hkey, hvalue⟩ := Ordering.then_eq_eq.mp hhead
      rw [eq_of_compareCanonical hkey, eq_of_compareCanonical hvalue,
        eq_of_compareEntries (Nat.succ.inj hlength) htail]

end

instance : Std.TransOrd Value :=
  have h : (compare : Value → Value → Ordering) = compareOn marks :=
    funext fun a => funext fun b => compareCanonical_eq a b
  show Std.TransCmp (compare : Value → Value → Ordering) from
    h ▸ inferInstanceAs (Std.TransCmp (compareOn marks))

instance : Std.LawfulEqOrd Value where
  eq_of_compare := eq_of_compareCanonical

theorem sortEntries_eq_insertionSort (es : List (Value × Value)) :
    sortEntries es = es.insertionSort fun d e => StableSort.keyOrder compare Prod.fst d e :=
  StableSort.sortBy_eq_insertionSort keyLe es

theorem sortEntries_perm (es : List (Value × Value)) : (sortEntries es).Perm es := by
  rw [sortEntries_eq_insertionSort]
  exact List.perm_insertionSort _ es

theorem pairwise_sortEntries (es : List (Value × Value)) :
    (sortEntries es).Pairwise fun d e => StableSort.keyOrder compare Prod.fst d e := by
  rw [sortEntries_eq_insertionSort]
  exact List.pairwise_insertionSort _ es

theorem sortEntries_eq_of_perm {es fs : List (Value × Value)} (h : es.Perm fs)
    (hdistinct : (es.map Prod.fst).Nodup) : sortEntries es = sortEntries fs := by
  rw [sortEntries_eq_insertionSort, sortEntries_eq_insertionSort,
    StableSort.insertionSort_keyOrder_eq_of_perm h hdistinct]

theorem repeated?_sortEntries_eq_none_iff {es : List (Value × Value)} :
    StableSort.repeated? (fun a b => a.1 == b.1) (sortEntries es) = none ↔
      (es.map Prod.fst).Nodup := by
  rw [sortEntries_eq_insertionSort]
  exact StableSort.repeated?_insertionSort_eq_none_iff compare Prod.fst

end Value

end LazyCollections
