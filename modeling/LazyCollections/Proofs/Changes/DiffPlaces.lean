import LazyCollections.Proofs.Changes.DiffExact
import LazyCollections.Proofs.Storage.Keeping

/-!
# Differences place by place

What a difference says about a place depends on what the two sides have there and on nothing else,
and it is the least that turns the one into the other: nothing where they agree, one deletion or
insertion where one side has nothing, and for a changed element one update, or in a set a deletion
and an insertion. Done on the stored rows, a difference from what is stored leaves the rows of the
contents.
-/

namespace LazyCollections

set_option autoImplicit false

variable {T : ElementType} {K : Scalar}

/-- What a change set says about a place. Elements to be deleted themselves are not told apart by
place. -/
def ChangeSet.workAt (c : ChangeSet T.Element K.Carrier) (p : Place T K) :
    ChangeSet T.Element K.Carrier where
  truncate := c.truncate
  deletions := c.deletions.filter fun d => Place.of d.slot d.element = p
  updates := c.updates.filter fun u => Place.of u.slot u.element = p
  insertions := c.insertions.filter fun d => Place.of d.slot d.element = p

/-- The work for an element that has changed. The rows of a set are not updated in place. -/
def Place.rewrite : Place T K → T.Element → T.Element → ChangeSet T.Element K.Carrier
  | .identity _, old, new => { deletions := [⟨.unordered, old⟩], insertions := [⟨.unordered, new⟩] }
  | p, old, new => { updates := [⟨p.slot, old, new⟩] }

/-- The least work that turns what a place has into what it shall have. -/
def leastWork (p : Place T K) : Option T.Element → Option T.Element → ChangeSet T.Element K.Carrier
  | none, none => {}
  | some old, none => { deletions := [⟨p.slot, old⟩] }
  | none, some new => { insertions := [⟨p.slot, new⟩] }
  | some old, some new => if T.isDirty new old then p.rewrite old new else {}

/-- Whether a place differs: only one side has an element there, or its state has changed. -/
def Differs (T : ElementType) : Option T.Element → Option T.Element → Prop
  | none, none => False
  | some old, some new => T.isDirty new old = true
  | _, _ => True

def ChangeSet.Mentions (c : ChangeSet T.Element K.Carrier) (p : Place T K) : Prop :=
  (∃ d ∈ c.deletions, Place.of d.slot d.element = p) ∨
    (∃ u ∈ c.updates, Place.of u.slot u.element = p) ∨
    ∃ d ∈ c.insertions, Place.of d.slot d.element = p

theorem ChangeSet.mentions_iff {c : ChangeSet T.Element K.Carrier} {p : Place T K} :
    c.Mentions p ↔ (c.workAt p).deletions ≠ [] ∨ (c.workAt p).updates ≠ [] ∨
      (c.workAt p).insertions ≠ [] := by
  simp [Mentions, workAt, List.filter_eq_nil_iff]

theorem differs_iff (p : Place T K) (old new : Option T.Element) :
    Differs T old new ↔ (leastWork p old new).deletions ≠ [] ∨ (leastWork p old new).updates ≠ [] ∨
      (leastWork p old new).insertions ≠ [] := by
  cases old with
  | none => cases new <;> simp [Differs, leastWork]
  | some old =>
    cases new with
    | none => simp [Differs, leastWork]
    | some new =>
      cases hdirty : T.isDirty new old
      · simp [Differs, leastWork, hdirty]
      · cases p <;> simp [Differs, leastWork, Place.rewrite, hdirty]

section Lists

variable {α β : Type} {f : α → Option β} {q : β → Bool} {x : α} {xs : List α}

theorem filter_filterMap_eq_nil (h : ∀ e ∈ xs, ∀ y, f e = some y → q y = false) :
    (xs.filterMap f).filter q = [] := by
  simp only [List.filter_eq_nil_iff, List.mem_filterMap, Bool.not_eq_true]
  rintro y ⟨e, he, hy⟩
  exact h e he y hy

theorem filter_filterMap_eq_toList (hnodup : xs.Nodup) (hx : x ∈ xs)
    (h : ∀ e ∈ xs, ∀ y, f e = some y → (q y = true ↔ e = x)) :
    (xs.filterMap f).filter q = (f x).toList := by
  obtain ⟨before, after, rfl⟩ := List.append_of_mem hx
  obtain ⟨_, hafter, hbefore⟩ := List.nodup_append.mp hnodup
  have hothers : ∀ e ∈ before ++ x :: after, e ≠ x → ∀ y, f e = some y → q y = false :=
    fun e he hne y hy => Bool.eq_false_iff.mpr fun hq => hne ((h e he y hy).mp hq)
  have hleft : (before.filterMap f).filter q = [] :=
    filter_filterMap_eq_nil fun e he =>
      hothers e (List.mem_append_left _ he) (hbefore e he x List.mem_cons_self)
  have hright : (after.filterMap f).filter q = [] :=
    filter_filterMap_eq_nil fun e he =>
      hothers e (List.mem_append_right _ (List.mem_cons_of_mem x he)) fun heq =>
        (List.nodup_cons.mp hafter).1 (heq ▸ he)
  rw [List.filterMap_append, List.filter_append, hleft, List.nil_append, List.filterMap_cons]
  cases hy : f x with
  | none => exact hright
  | some y => rw [List.filter_cons_of_pos ((h x hx y hy).mpr rfl), hright]; rfl

end Lists

section Places

variable {β : Type} {place : β → Place T K} {p : Place T K}

theorem filter_filterMap_slotPairs {ε : Type} (old new : List (Option ε))
    {f : Nat × Option ε × Option ε → Option β} (hnull : ∀ i, f (i, none, none) = none)
    (hplace : ∀ pair y, f pair = some y → (place y = p ↔ p.index? = some pair.1)) :
    ((slotPairs old new).filterMap f).filter (fun y => place y = p) =
      (p.index?.bind fun i => f (i, old[i]?.join, new[i]?.join)).toList := by
  rw [slotPairs, List.filterMap_map]
  cases hp : p.index? with
  | none =>
    refine filter_filterMap_eq_nil fun i _ y hy => decide_eq_false ?_
    rw [hplace _ y hy, hp]
    exact (Option.some_ne_none _).symm
  | some i =>
    have hplace : ∀ j y, f (j, old[j]?.join, new[j]?.join) = some y → (place y = p ↔ j = i) := by
      intro j y hy
      rw [hplace _ y hy, hp, Option.some.injEq, eq_comm]
    by_cases hi : i < max old.length new.length
    · refine filter_filterMap_eq_toList List.nodup_range (List.mem_range.mpr hi) fun j _ y hy => ?_
      rw [decide_eq_true_eq, hplace j y hy]
    · rw [filter_filterMap_eq_nil, Option.bind_some, List.getElem?_eq_none (by omega),
        List.getElem?_eq_none (by omega), Option.join_none, hnull, Option.toList_none]
      intro j hj y hy
      refine decide_eq_false fun hy' => hi ?_
      exact (hplace j y hy).mp hy' ▸ List.mem_range.mp hj

theorem filter_filterMap_entries {κ ε : Type} [Ord κ] [Std.TransOrd κ] [Std.LawfulEqOrd κ]
    {m : SortedMap κ ε} {f : κ × ε → Option β} (k? : Option κ)
    (hplace : ∀ e ∈ m.entries, ∀ y, f e = some y → (place y = p ↔ k? = some e.1)) :
    (m.entries.filterMap f).filter (fun y => place y = p) =
      (k?.bind fun k => (m.get? k).bind fun v => f (k, v)).toList := by
  cases k? with
  | none =>
    refine filter_filterMap_eq_nil fun e he y hy => decide_eq_false ?_
    rw [hplace e he y hy]
    exact (Option.some_ne_none _).symm
  | some k =>
    rw [Option.bind_some]
    cases hk : m.get? k with
    | none =>
      refine filter_filterMap_eq_nil fun e he y hy => decide_eq_false fun hp => ?_
      exact SortedMap.get?_eq_none_iff.mp hk e he (Option.some.inj ((hplace e he y hy).mp hp)).symm
    | some v =>
      refine filter_filterMap_eq_toList m.nodup_entries (SortedMap.get?_eq_some_iff.mp hk) ?_
      intro e he y hy
      rw [decide_eq_true_eq, hplace e he y hy, Option.some.injEq]
      constructor
      · rintro rfl
        rw [SortedMap.get?_eq_some_iff.mpr he] at hk
        exact Prod.ext rfl (Option.some.inj hk)
      · rintro rfl
        rfl

end Places

theorem workAt_diffSequence (old new : List (Option T.Element)) (p : Place T K) :
    (diffSequence old new : ChangeSet T.Element K.Carrier).workAt p =
      leastWork p ((Aggregate.sequence old : Aggregate T K).at? p)
        ((Aggregate.sequence new : Aggregate T K).at? p) := by
  unfold ChangeSet.workAt diffSequence
  rw [filter_filterMap_slotPairs old new (fun _ => rfl) ?deletions,
    filter_filterMap_slotPairs old new (fun _ => rfl) ?updates,
    filter_filterMap_slotPairs old new (fun _ => rfl) ?insertions]
  case deletions | insertions =>
    intro pair y hy
    split at hy <;> cases hy
    exact Place.of_index_eq_iff
  case updates =>
    intro pair y hy
    split at hy
    next =>
      split at hy <;> cases hy
      exact Place.of_index_eq_iff
    next => cases hy
  cases p with
  | index i =>
    simp only [Aggregate.at?, Place.index?, Option.bind_some]
    cases old[i]?.join with
    | none => cases new[i]?.join <;> rfl
    | some o =>
      cases new[i]?.join with
      | none => rfl
      | some n =>
        cases hdirty : T.isDirty n o <;> simp [leastWork, Place.rewrite, Place.slot, hdirty]
  | key k => rfl
  | identity id => rfl

section Entries

variable {κ : Type} [Ord κ] {old new : SortedMap κ T.Element}

theorem map_removedEntries {β : Type} (g : κ × T.Element → β) :
    (removedEntries old new).map g =
      old.entries.filterMap fun e =>
        match new.get? e.1 with
        | some _ => none
        | none => some (g e) := by
  rw [removedEntries, ← List.filterMap_eq_map, List.filterMap_filter]
  congr 1
  funext e
  rw [SortedMap.contains]
  cases new.get? e.1 <;> rfl

theorem map_changedEntries {β : Type} (g : κ × T.Element × T.Element → β) :
    (changedEntries old new).map g =
      new.entries.filterMap fun e => (old.get? e.1).bind fun o =>
        if T.isDirty e.2 o then some (g (e.1, o, e.2)) else none := by
  rw [changedEntries, List.map_filterMap]
  congr 1
  funext e
  cases old.get? e.1 with
  | none => rfl
  | some o => cases hdirty : T.isDirty e.2 o <;> simp [hdirty]

end Entries

theorem workAt_diffKeyed (old new : SortedMap K.Carrier T.Element) (p : Place T K) :
    (diffKeyed old new : ChangeSet T.Element K.Carrier).workAt p =
      leastWork p ((Aggregate.keyed old : Aggregate T K).at? p)
        ((Aggregate.keyed new : Aggregate T K).at? p) := by
  have hadded : addedEntries old new = removedEntries new old := rfl
  unfold ChangeSet.workAt diffKeyed
  rw [hadded, map_removedEntries, map_removedEntries, map_changedEntries,
    filter_filterMap_entries p.key? ?deletions,
    filter_filterMap_entries p.key? ?updates,
    filter_filterMap_entries p.key? ?insertions]
  case deletions | insertions =>
    intro e _ d hd
    split at hd <;> cases hd
    exact Place.of_key_eq_iff
  case updates =>
    intro e _ u hu
    obtain ⟨o, _, hu⟩ := Option.bind_eq_some_iff.mp hu
    split at hu <;> cases hu
    exact Place.of_key_eq_iff
  cases p with
  | key k =>
    simp only [Aggregate.at?, Place.key?, Option.bind_some]
    cases old.get? k with
    | none => cases new.get? k <;> rfl
    | some o =>
      cases new.get? k with
      | none => rfl
      | some n =>
        cases hdirty : T.isDirty n o <;> simp [leastWork, Place.rewrite, Place.slot, hdirty]
  | index i => rfl
  | identity id => rfl

theorem workAt_diffSet {old new : SortedMap T.Id T.Element}
    (hold : ∀ e ∈ old.entries, e.1 = T.idOf e.2) (hnew : ∀ e ∈ new.entries, e.1 = T.idOf e.2)
    (p : Place T K) :
    (diffSet old new : ChangeSet T.Element K.Carrier).workAt p =
      leastWork p ((Aggregate.set old : Aggregate T K).at? p)
        ((Aggregate.set new : Aggregate T K).at? p) := by
  unfold ChangeSet.workAt diffSet
  rw [map_removedEntries, map_changedEntries, List.filter_append,
    filter_filterMap_entries p.identity? ?removed,
    filter_filterMap_entries p.identity? ?changed,
    filter_filterMap_entries p.identity? ?insertions]
  case removed =>
    intro e he d hd
    split at hd <;> cases hd
    rw [hold e he]
    exact Place.of_unordered_eq_iff
  case changed =>
    intro e _ d hd
    obtain ⟨o, ho, hd⟩ := Option.bind_eq_some_iff.mp hd
    split at hd <;> cases hd
    rw [hold _ (SortedMap.get?_eq_some_iff.mp ho)]
    exact Place.of_unordered_eq_iff
  case insertions =>
    intro e he d hd
    rw [hnew e he]
    split at hd
    next =>
      split at hd <;> cases hd
      exact Place.of_unordered_eq_iff
    next =>
      cases hd
      exact Place.of_unordered_eq_iff
  cases p with
  | identity id =>
    simp only [Aggregate.at?, Place.identity?, Option.bind_some]
    cases old.get? id with
    | none => cases new.get? id <;> rfl
    | some o =>
      cases new.get? id with
      | none => rfl
      | some n => cases hdirty : T.isDirty n o <;> simp [leastWork, Place.rewrite, hdirty]
  | index i => rfl
  | key k => rfl

theorem workAt_diff {old new : Aggregate T K} (hold : old.KeyedById) (hnew : new.KeyedById)
    {collectOrphans : Bool} {c : ChangeSet T.Element K.Carrier}
    (h : diff (some old) new collectOrphans = .ok c) (p : Place T K) :
    c.workAt p = leastWork p (old.at? p) (new.at? p) := by
  obtain ⟨rows, hrows, htruncate, hdeletions, hupdates, hinsertions⟩ := diff_cases h
  have hc : c.workAt p = rows.workAt p := by
    rw [ChangeSet.workAt, htruncate, hdeletions, hupdates, hinsertions]
    rfl
  rw [hc]
  cases old with
  | sequence old =>
    cases new with
    | sequence new =>
      cases hrows
      exact workAt_diffSequence old new p
    | set | keyed => cases hrows
  | set old =>
    cases new with
    | set new =>
      cases hrows
      exact workAt_diffSet hold hnew p
    | sequence | keyed => cases hrows
  | keyed old =>
    cases new with
    | keyed new =>
      cases hrows
      exact workAt_diffKeyed old new p
    | sequence | set => cases hrows

/-- The difference from a snapshot to contents of its shape turns the rows of the snapshot into
those of the contents. It mentions the places where the two differ and no others, with the least
work for each. -/
theorem Store.apply_diff (hT : T.Storable) (hid : T.StorableId) (hK : K.Restores)
    {old new : Aggregate T K} (hshape : old.shape = new.shape) (hold : old.KeyedById)
    (hnew : new.KeyedById)
    (hclean : ∀ n o : T.Element, (old.shape = .set → T.idOf n = T.idOf o) →
      T.isDirty n o = false → T.externalize n = T.externalize o)
    {store : Store} {d : Descriptor} {owner : EntityId} {stored : Aggregate T K}
    (hstored : store.HoldsAt ⟨d.role, owner⟩ stored) (hsame : stored.trimmed = old.trimmed)
    (hrows : old.shape = .set → store.Identifies T d.role) (collectOrphans : Bool) :
    ∃ c work, diff (some old) new collectOrphans = .ok c ∧ Database.rowWork c = .ok work ∧
      (store.apply d owner work).HoldsAt ⟨d.role, owner⟩ new.trimmed ∧
      ∀ p : Place T K, c.workAt p = leastWork p (old.at? p) (new.at? p) ∧
        (c.Mentions p ↔ Differs T (old.at? p) (new.at? p)) := by
  obtain ⟨c, hdiff, hcarry, -⟩ :=
    carryOut_diff_of_trimmed_eq (hT.tellsApart hclean) hsame hshape hold hnew collectOrphans
  have hstoredShape : stored.shape = old.shape := by
    rw [← stored.shape_trimmed, hsame, old.shape_trimmed]
  have hstoredKeyed : stored.KeyedById := by
    rwa [← Aggregate.keyedById_trimmed, hsame, Aggregate.keyedById_trimmed]
  have hfinds : c.FindsRows stored.shape → T.IdentifiedBy (store.identify d.role) := by
    intro hfinds
    rw [hstoredShape] at hfinds
    have hset : old.shape = .set := by
      by_contra hne
      exact not_findsRows_diff hdiff hne hfinds
    exact (hrows hset).identifiedBy hid
  have hplaces := workAt_diff hold hnew hdiff
  refine ⟨c, _, hdiff, Database.rowWork_eq hT c, ?_, fun p => ⟨hplaces p, ?_⟩⟩
  · rw [← hcarry]
    exact hstored.apply hT hK hstoredKeyed c hfinds
  · rw [ChangeSet.mentions_iff, hplaces p, differs_iff]

def Aggregate.writtenNotes : Aggregate (.ofScalar .text) .unkeyed :=
  .sequence [some "fragile", none, some "urgent", none]

def Aggregate.rewrittenNotes : Aggregate (.ofScalar .text) .unkeyed :=
  .sequence [some "dry", some "heavy"]

/-- The first note is rewritten, the gap is filled, and the note behind it goes. -/
theorem Store.apply_diff_notes :
    ∃ c work, diff (some .writtenNotes) .rewrittenNotes true = .ok c ∧
      Database.rowWork (T := .ofScalar .text) (K := .unkeyed) c = .ok work ∧
      ((Store.seed {} ⟨⟨"Order.notes"⟩, .filled 0⟩
            (.sequence [.text "fragile", .null, .text "urgent"])).apply
          ⟨⟨"Order.notes"⟩, .sequence, {}⟩ (.filled 0) work).HoldsAt ⟨⟨"Order.notes"⟩, .filled 0⟩
        (Aggregate.trimmed .rewrittenNotes) ∧
      ∀ p : Place (.ofScalar .text) .unkeyed,
        c.workAt p = leastWork p (Aggregate.writtenNotes.at? p) (Aggregate.rewrittenNotes.at? p) ∧
          (c.Mentions p ↔
            Differs _ (Aggregate.writtenNotes.at? p) (Aggregate.rewrittenNotes.at? p)) := by
  have hT := ElementType.lawful_ofScalar Scalar.restores_text nofun .sequence
  have hshape : Aggregate.writtenNotes.shape = Aggregate.rewrittenNotes.shape := rfl
  have hold : Aggregate.writtenNotes.KeyedById := trivial
  have hnew : Aggregate.rewrittenNotes.KeyedById := trivial
  exact apply_diff hT.toStorable (hT.storableId nofun) Scalar.restores_unkeyed hshape hold hnew
    (fun n o hid hclean => congrArg _ (hT.eq_of_not_isDirty n o hid hclean))
    ⟨_, rows?_seed_self _ _ _, .sequence [some "fragile", none, some "urgent"]⟩ rfl nofun true

end LazyCollections
