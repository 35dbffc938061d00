import LazyCollections.Changes.OfQueue

/-!
# The last item that passes a test

Queued work is merged with work that is there already: the last change that an operation concerns is
taken back or changed. Where at most one item passes the test, this is plain filtering and mapping.
-/

namespace LazyCollections

set_option autoImplicit false

section Last

variable {α : Type} {p : α → Bool} {xs rest : List α} {x : α}

theorem takeLast?_eq_none_iff : takeLast? p xs = none ↔ ∀ x ∈ xs, p x = false := by
  induction xs with
  | nil => simp [takeLast?]
  | cons y ys ih =>
    rw [takeLast?, List.forall_mem_cons]
    cases htail : takeLast? p ys with
    | some found =>
      have hnot : ¬ ∀ x ∈ ys, p x = false := fun h => by
        rw [ih.mpr h] at htail
        cases htail
      simp [hnot]
    | none =>
      have hall := ih.mp htail
      cases p y with
      | true => simp
      | false => simpa using hall

theorem takeLast?_eq_some (h : takeLast? p xs = some (x, rest)) :
    ∃ before after, xs = before ++ x :: after ∧ rest = before ++ after ∧ p x = true ∧
      ∀ y ∈ after, p y = false := by
  induction xs generalizing rest with
  | nil => cases h
  | cons y ys ih =>
    rw [takeLast?] at h
    cases htail : takeLast? p ys with
    | some found =>
      rw [htail] at h
      cases h
      obtain ⟨before, after, rfl, hrest, hafter⟩ := ih htail
      exact ⟨y :: before, after, rfl, congrArg (y :: ·) hrest, hafter⟩
    | none =>
      rw [htail] at h
      simp only [Option.ite_none_right_eq_some, Option.some.injEq, Prod.mk.injEq] at h
      obtain ⟨hpass, rfl, rfl⟩ := h
      exact ⟨[], ys, rfl, rfl, hpass, takeLast?_eq_none_iff.mp htail⟩

theorem takeLast?_pass (h : takeLast? p xs = some (x, rest)) : p x = true := by
  obtain ⟨_, _, _, _, hpass, _⟩ := takeLast?_eq_some h
  exact hpass

theorem takeLast?_perm (h : takeLast? p xs = some (x, rest)) : xs.Perm (x :: rest) := by
  obtain ⟨before, after, rfl, rfl, _⟩ := takeLast?_eq_some h
  exact List.perm_middle

theorem all_before_of_unique {before after : List α} (hpass : p x = true)
    (hunique : (before ++ x :: after).Pairwise fun x y => ¬(p x = true ∧ p y = true)) :
    ∀ y ∈ before, p y = false := by
  intro y hy
  have hnot := (List.pairwise_append.mp hunique).2.2 y hy x List.mem_cons_self
  exact Bool.eq_false_iff.mpr fun hpassed => hnot ⟨hpassed, hpass⟩

/-- If at most one item passes, taking it out leaves the items that do not pass. -/
theorem takeLast?_of_unique (hunique : xs.Pairwise fun x y => ¬(p x = true ∧ p y = true))
    (h : takeLast? p xs = some (x, rest)) :
    p x = true ∧ x ∈ xs ∧ rest = xs.filter fun y => !p y := by
  obtain ⟨before, after, rfl, rfl, hpass, hafter⟩ := takeLast?_eq_some h
  have hbefore := all_before_of_unique hpass hunique
  refine ⟨hpass, List.mem_append_right _ List.mem_cons_self, ?_⟩
  rw [List.filter_append, List.filter_cons_of_neg (by simp [hpass]),
    List.filter_eq_self.mpr fun y hy => by simp [hbefore y hy],
    List.filter_eq_self.mpr fun y hy => by simp [hafter y hy]]

variable {f : α → α}

theorem changeLast?_eq_none_iff : changeLast? p f xs = none ↔ ∀ x ∈ xs, p x = false := by
  induction xs with
  | nil => simp [changeLast?]
  | cons y ys ih =>
    rw [changeLast?, List.forall_mem_cons]
    cases htail : changeLast? p f ys with
    | some found =>
      have hnot : ¬ ∀ x ∈ ys, p x = false := fun h => by
        rw [ih.mpr h] at htail
        cases htail
      simp [hnot]
    | none =>
      have hall := ih.mp htail
      cases p y with
      | true => simp
      | false => simpa using hall

theorem changeLast?_eq_some (h : changeLast? p f xs = some rest) :
    ∃ before x after, xs = before ++ x :: after ∧ rest = before ++ f x :: after ∧ p x = true ∧
      ∀ y ∈ after, p y = false := by
  induction xs generalizing rest with
  | nil => cases h
  | cons y ys ih =>
    rw [changeLast?] at h
    cases htail : changeLast? p f ys with
    | some others =>
      rw [htail] at h
      cases h
      obtain ⟨before, x, after, rfl, hrest, hafter⟩ := ih htail
      exact ⟨y :: before, x, after, rfl, congrArg (y :: ·) hrest, hafter⟩
    | none =>
      rw [htail] at h
      simp only [Option.ite_none_right_eq_some, Option.some.injEq] at h
      obtain ⟨hpass, rfl⟩ := h
      exact ⟨[], y, ys, rfl, rfl, hpass, changeLast?_eq_none_iff.mp htail⟩

theorem changeLast?_of_unique (hunique : xs.Pairwise fun x y => ¬(p x = true ∧ p y = true))
    (h : changeLast? p f xs = some rest) :
    (∃ x ∈ xs, p x = true) ∧ rest = xs.map fun x => if p x then f x else x := by
  obtain ⟨before, x, after, rfl, rfl, hpass, hafter⟩ := changeLast?_eq_some h
  have hbefore := all_before_of_unique hpass hunique
  have hkept {ys : List α} (hys : ∀ y ∈ ys, p y = false) :
      ys.map (fun y => if p y then f y else y) = ys :=
    (List.map_congr_left fun y hy => by simp [hys y hy]).trans (List.map_id ys)
  refine ⟨⟨x, List.mem_append_right _ List.mem_cons_self, hpass⟩, ?_⟩
  rw [List.map_append, List.map_cons, if_pos hpass, hkept hbefore, hkept hafter]

/-- What a change leaves alone stays as it is in all items. -/
theorem map_changeLast? {β : Type} {g : α → β} (h : changeLast? p f xs = some rest)
    (hg : ∀ x, g (f x) = g x) : rest.map g = xs.map g := by
  obtain ⟨before, x, after, rfl, rfl, _⟩ := changeLast?_eq_some h
  simp only [List.map_append, List.map_cons, hg]

theorem takeLast?_map {β : Type} (g : β → α) (ys : List β) :
    takeLast? p (ys.map g) = (takeLast? (p ∘ g) ys).map fun r => (g r.1, r.2.map g) := by
  induction ys with
  | nil => rfl
  | cons y ys ih =>
    rw [List.map_cons, takeLast?, takeLast?, ih]
    cases takeLast? (p ∘ g) ys with
    | some found => rfl
    | none => cases hpass : p (g y) <;> simp [hpass]

theorem changeLast?_map {β : Type} {g : β → α} {change : β → β}
    (hchange : ∀ y, f (g y) = g (change y)) (ys : List β) :
    changeLast? p f (ys.map g) = (changeLast? (p ∘ g) change ys).map (List.map g) := by
  induction ys with
  | nil => rfl
  | cons y ys ih =>
    rw [List.map_cons, changeLast?, changeLast?, ih]
    cases changeLast? (p ∘ g) change ys with
    | some rest => rfl
    | none => cases hpass : p (g y) <;> simp [hpass, hchange]

end Last

end LazyCollections
