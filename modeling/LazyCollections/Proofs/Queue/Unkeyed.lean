import LazyCollections.Proofs.Queue.Last
import LazyCollections.Proofs.Queue.Run

/-!
# The work of a queue on sequences and sets

For each shape there is an invariant of the work collected so far, which every queued operation
keeps. In a sequence and in a set a change is found by the identity of its element.
-/

namespace LazyCollections

set_option autoImplicit false

variable {T : ElementType} {K : Scalar}

theorem ChangeSet.carryOut_sequence (c : ChangeSet T.Element K.Carrier)
    {gone added : List T.Element} (hgone : c.deletions = gone.map fun e => ⟨.unordered, e⟩)
    (hupdates : c.updates = []) (hadded : c.insertions = added.map fun e => ⟨.unordered, e⟩)
    (slots : List (Option T.Element)) :
    c.carryOut (.sequence slots) =
      Aggregate.trimmed (.sequence (gone.foldl (fun s e => QueuedOp.removeFirst e s)
        (if c.truncate then [] else slots) ++ added.map some)) := by
  have hkept : (if c.truncate then (Aggregate.sequence slots : Aggregate T K).cleared
      else .sequence slots) = .sequence (if c.truncate then [] else slots) := by
    split <;> rfl
  have hleft : ∀ s, gone.foldl (fun a e => a.deleteRow .unordered e)
      (.sequence s : Aggregate T K) =
        .sequence (gone.foldl (fun s e => QueuedOp.removeFirst e s) s) := fun s =>
    List.foldl_hom Aggregate.sequence fun _ _ => rfl
  have hwritten : ∀ s, added.foldl (fun a e => a.writeRow .unordered e)
      (.sequence s : Aggregate T K) = .sequence (s ++ added.map some) := by
    clear hadded
    induction added with
    | nil => simp
    | cons e added ih =>
      intro s
      refine (ih (s ++ [some e])).trans ?_
      rw [List.append_assoc]
      rfl
  rw [carryOut, hkept, hgone, hupdates, hadded]
  simp only [List.foldl_map, List.foldl_nil]
  rw [hleft, hwritten]

theorem not_mem_of_queuedMembership_none {queue : List (QueuedOp T.Element K.Carrier)}
    {e : T.Element} (h : queuedMembership .sequence queue e = none) :
    QueuedOp.clear ∉ queue ∧ ∀ d, QueuedOp.add .unordered d ∈ queue → T.same d e = false := by
  rw [queuedMembership, List.findSome?_eq_none_iff] at h
  constructor
  · intro hmem
    cases h _ (List.mem_reverse.mpr hmem)
  · intro d hmem
    have hnone := h _ (List.mem_reverse.mpr hmem)
    cases hsame : T.same d e with
    | false => rfl
    | true => simp [QueuedOp.membership?, QueuedOp.leaves?, hsame] at hnone

theorem removeFirst_append_of_absent {e : T.Element} {slots added : List (Option T.Element)}
    (h : ∀ slot ∈ added, QueuedOp.holds T e slot = false) :
    QueuedOp.removeFirst e (slots ++ added) = QueuedOp.removeFirst e slots ++ added := by
  have hadded : added.eraseP (QueuedOp.holds T e) = added :=
    List.eraseP_of_forall_not fun slot hslot => by simp [h slot hslot]
  rw [QueuedOp.removeFirst, QueuedOp.removeFirst, List.eraseP_append, hadded]
  split
  next => rfl
  next hnone =>
    rw [List.eraseP_of_forall_not]
    intro slot hslot hholds
    exact hnone (List.any_eq_true.mpr ⟨slot, hslot, hholds⟩)

namespace QueueWork

/-- Work on a sequence: elements of its rows are removed one by one, and others are appended, all
of which the queue has added. -/
structure OnSequence (w : QueueWork T.Element K.Carrier)
    (queue : List (QueuedOp T.Element K.Carrier)) (base slots : List (Option T.Element))
    (gone added : List T.Element) : Prop where
  truncated : w.changes.truncate = true → .clear ∈ queue
  deletions : w.changes.deletions = gone.map fun e => ⟨.unordered, e⟩
  updates : w.changes.updates = []
  insertions : w.changes.insertions = added.map fun e => ⟨.unordered, e⟩
  inserted : ∀ e ∈ added, .add .unordered e ∈ queue
  slots_eq : slots = gone.foldl (fun s e => QueuedOp.removeFirst e s)
    (if w.changes.truncate then [] else base) ++ added.map some

theorem takeLast?_concerns_unordered (added : List T.Element) (e : T.Element) :
    takeLast? (concerns (.unordered : Slot K.Carrier) e)
        (added.map fun d => ⟨.unordered, d⟩) =
      (takeLast? (fun d => T.same d e) added).map fun r =>
        (⟨.unordered, r.1⟩, r.2.map fun d => ⟨.unordered, d⟩) := by
  rw [takeLast?_map]
  have htest : concerns (.unordered : Slot K.Carrier) e ∘ (fun d => ⟨.unordered, d⟩) =
      fun d => T.same d e := by
    funext d
    simp [concerns]
  rw [htest]

section OnSequence

variable {w : QueueWork T.Element K.Carrier} {queue : List (QueuedOp T.Element K.Carrier)}
variable {base slots : List (Option T.Element)} {gone added : List T.Element}

theorem OnSequence.append (h : w.OnSequence queue base slots gone added) (e : T.Element) :
    (w.addOp (.add .unordered e)).OnSequence (queue ++ [.add .unordered e]) base
      (slots ++ [some e]) gone (added ++ [e]) := by
  refine ⟨fun htrue => List.mem_append_left _ (h.truncated htrue), h.deletions, h.updates, ?_, ?_,
    ?_⟩
  · rw [QueueWork.addOp, h.insertions, List.map_append]
    rfl
  · intro d hd
    rcases List.mem_append.mp hd with hd | hd
    · exact List.mem_append_left _ (h.inserted d hd)
    · rw [List.mem_singleton.mp hd]
      exact List.mem_append_right _ (List.mem_singleton_self _)
  · rw [h.slots_eq, List.map_append, List.append_assoc]
    rfl

/-- Nothing that was queued before concerns the element, so a row has to be deleted. -/
theorem OnSequence.removeFirst (h : w.OnSequence queue base slots gone added) {e : T.Element}
    (hnone : queuedMembership .sequence queue e = none) :
    (w.addOp (.remove .unordered e)).OnSequence (queue ++ [.remove .unordered e]) base
      (QueuedOp.removeFirst e slots) (gone ++ [e]) added := by
  obtain ⟨hclear, hadds⟩ := not_mem_of_queuedMembership_none hnone
  have hkept : w.changes.truncate = false :=
    Bool.eq_false_iff.mpr fun htrue => hclear (h.truncated htrue)
  have hother : ∀ d ∈ added, T.same d e = false := fun d hd => hadds d (h.inserted d hd)
  have hwork : w.addOp (.remove .unordered e) =
      { changes := { w.changes with deletions := w.changes.deletions ++ [⟨.unordered, e⟩] }
        displaced := w.displaced ++ [e] } := by
    simp [QueueWork.addOp, remove, h.insertions, takeLast?_concerns_unordered,
      takeLast?_eq_none_iff.mpr hother, delete, hkept]
  have hnot : ∀ slot ∈ added.map some, QueuedOp.holds T e slot = false := by
    intro slot hslot
    obtain ⟨d, hd, rfl⟩ := List.mem_map.mp hslot
    exact hother d hd
  rw [hwork]
  refine ⟨fun htrue => List.mem_append_left _ (h.truncated htrue), ?_, h.updates, h.insertions,
    fun d hd => List.mem_append_left _ (h.inserted d hd), ?_⟩
  · rw [h.deletions, List.map_append]
    rfl
  · rw [h.slots_eq, removeFirst_append_of_absent hnot, List.foldl_append]
    rfl

theorem OnSequence.addOp {op : QueuedOp T.Element K.Carrier} {next : Aggregate T K}
    (h : w.OnSequence queue base slots gone added)
    (step : QueueStep queue (.sequence slots) op next) :
    ∃ slots' gone' added', next = .sequence slots' ∧
      (w.addOp op).OnSequence (queue ++ [op]) base slots' gone' added' := by
  cases step with
  | clear =>
    refine ⟨[], [], [], rfl, ?_⟩
    exact ⟨fun _ => by simp, rfl, rfl, rfl, fun e he => absurd he List.not_mem_nil, rfl⟩
  | append _ e => exact ⟨_, _, _, rfl, h.append e⟩
  | removeFirst _ e hnone => exact ⟨_, _, _, rfl, h.removeFirst hnone⟩

end OnSequence

/-- What is left of the stored entries before anything is written. -/
def kept {κ β : Type} [Ord κ] (truncate : Bool) (base : SortedMap κ β) (gone : List κ) :
    SortedMap κ β :=
  gone.foldl SortedMap.erase (if truncate then ∅ else base)

theorem get?_kept_of_truncate {κ β : Type} [Ord κ] [Std.TransOrd κ] [Std.LawfulEqOrd κ]
    (base : SortedMap κ β) (gone : List κ) (k : κ) : (kept true base gone).get? k = none :=
  SortedMap.get?_foldl_erase_of_none rfl gone

theorem kept_append {κ β : Type} [Ord κ] (truncate : Bool) (base : SortedMap κ β)
    (gone : List κ) (k : κ) :
    kept truncate base (gone ++ [k]) = (kept truncate base gone).erase k :=
  List.foldl_append

/-- Work on a set: some entries are erased, and elements that are not there are inserted, each
identity once. -/
structure OnSet (w : QueueWork T.Element K.Carrier) (base items : SortedMap T.Id T.Element)
    (gone added : List T.Element) : Prop where
  deletions : w.changes.deletions = gone.map fun e => ⟨.unordered, e⟩
  updates : w.changes.updates = []
  insertions : w.changes.insertions = added.map fun e => ⟨.unordered, e⟩
  distinct : added.Pairwise fun a b => T.idOf a ≠ T.idOf b
  fresh : ∀ e ∈ added, (kept w.changes.truncate base (gone.map T.idOf)).get? (T.idOf e) = none
  items_eq : items = added.foldl (fun m e => m.insertIfNew (T.idOf e) e)
    (kept w.changes.truncate base (gone.map T.idOf))

section OnSet

variable {w : QueueWork T.Element K.Carrier} {base items : SortedMap T.Id T.Element}
variable {gone added : List T.Element} {e : T.Element}

theorem OnSet.insert (h : w.OnSet base items gone added) (hnone : items.get? (T.idOf e) = none) :
    (w.addOp (.add .unordered e)).OnSet base (items.insert (T.idOf e) e) gone (added ++ [e]) := by
  have habsent := hnone
  rw [h.items_eq, SortedMap.get?_foldl_insertIfNew_eq_none_iff] at habsent
  refine ⟨h.deletions, h.updates, ?_, ?_, ?_, ?_⟩
  · rw [QueueWork.addOp, h.insertions, List.map_append]
    rfl
  · refine List.pairwise_append.mpr ⟨h.distinct, List.pairwise_singleton _ _, ?_⟩
    intro a ha b hb
    rw [List.mem_singleton.mp hb]
    exact habsent.2 a ha
  · intro d hd
    rcases List.mem_append.mp hd with hd | hd
    · exact h.fresh d hd
    · rw [List.mem_singleton.mp hd]
      exact habsent.1
  · rw [List.foldl_append, ← SortedMap.insertIfNew_of_none hnone, h.items_eq]
    rfl

theorem OnSet.truncate_eq_false (h : w.OnSet base items gone added)
    (hsome : items.get? (T.idOf e) ≠ none) (hadded : ∀ d ∈ added, T.same d e = false) :
    w.changes.truncate = false := by
  cases htrue : w.changes.truncate with
  | false => rfl
  | true =>
    refine absurd ?_ hsome
    rw [h.items_eq, htrue, SortedMap.get?_foldl_insertIfNew_eq_none_iff]
    refine ⟨get?_kept_of_truncate base _ _, ?_⟩
    intro d hd heq
    have hne := hadded d hd
    rw [ElementType.same_iff.mpr heq] at hne
    cases hne

theorem OnSet.erase_eq (h : w.OnSet base items gone added) (e : T.Element) :
    items.erase (T.idOf e) = (added.filter fun d => !T.same d e).foldl
      (fun m d => m.insertIfNew (T.idOf d) d)
      ((kept w.changes.truncate base (gone.map T.idOf)).erase (T.idOf e)) := by
  have hkey : ∀ d ∈ added, (!T.same d e) = true ↔ T.idOf d ≠ T.idOf e := fun d _ => by
    simp [ElementType.same]
  rw [h.items_eq]
  exact SortedMap.erase_foldl_insertIfNew hkey _

theorem OnSet.deleteRow (h : w.OnSet base items gone added)
    (hadded : ∀ d ∈ added, T.same d e = false) (displaced : List T.Element) :
    OnSet
      { changes := { w.changes with deletions := w.changes.deletions ++ [⟨.unordered, e⟩] }
        displaced }
      base (items.erase (T.idOf e)) (gone ++ [e]) added := by
  have hall : (added.filter fun d => !T.same d e) = added :=
    List.filter_eq_self.mpr fun d hd => by simp [hadded d hd]
  have hgone : kept w.changes.truncate base ((gone ++ [e]).map T.idOf) =
      (kept w.changes.truncate base (gone.map T.idOf)).erase (T.idOf e) := by
    rw [List.map_append]
    exact kept_append _ _ _ _
  have herased := h.erase_eq e
  rw [hall] at herased
  refine ⟨?_, h.updates, h.insertions, h.distinct, ?_, ?_⟩
  · rw [h.deletions, List.map_append]
    rfl
  · intro d hd
    rw [hgone]
    exact SortedMap.get?_foldl_erase_of_none (h.fresh d hd) [T.idOf e]
  · rw [hgone]
    exact herased

theorem OnSet.eraseAdded (h : w.OnSet base items gone added) {d : T.Element}
    {rest : List T.Element} (htake : takeLast? (fun d => T.same d e) added = some (d, rest)) :
    (w.addOp (.remove .unordered e)).OnSet base (items.erase (T.idOf e)) gone rest := by
  have hunique : added.Pairwise fun a b => ¬(T.same a e = true ∧ T.same b e = true) :=
    h.distinct.imp fun hne hboth => hne
      ((ElementType.same_iff.mp hboth.1).trans (ElementType.same_iff.mp hboth.2).symm)
  have hwork : w.addOp (.remove .unordered e) =
      { w with changes := { w.changes with
          insertions := rest.map fun d => ⟨.unordered, d⟩ } } := by
    simp [QueueWork.addOp, remove, h.insertions, takeLast?_concerns_unordered, htake]
  obtain ⟨hsame, hmem, rfl⟩ := takeLast?_of_unique hunique htake
  have hfresh := h.fresh d hmem
  have herased := h.erase_eq e
  rw [ElementType.same_iff.mp hsame] at hfresh
  rw [SortedMap.erase_of_none hfresh] at herased
  rw [hwork]
  exact ⟨h.deletions, h.updates, rfl, h.distinct.filter _,
    fun a ha => h.fresh a (List.mem_filter.mp ha).1, herased⟩

theorem OnSet.erase (h : w.OnSet base items gone added)
    (hsome : items.get? (T.idOf e) ≠ none) :
    ∃ gone' added',
      (w.addOp (.remove .unordered e)).OnSet base (items.erase (T.idOf e)) gone' added' := by
  cases htake : takeLast? (fun d => T.same d e) added with
  | some found => exact ⟨_, _, h.eraseAdded htake⟩
  | none =>
    have hadded := takeLast?_eq_none_iff.mp htake
    have hwork : w.addOp (.remove .unordered e) =
        { changes := { w.changes with deletions := w.changes.deletions ++ [⟨.unordered, e⟩] }
          displaced := w.displaced ++ [e] } := by
      simp [QueueWork.addOp, remove, h.insertions, takeLast?_concerns_unordered, htake, delete,
        h.truncate_eq_false hsome hadded]
    rw [hwork]
    exact ⟨_, _, h.deleteRow hadded _⟩

theorem OnSet.addOp {queue : List (QueuedOp T.Element K.Carrier)}
    {op : QueuedOp T.Element K.Carrier} {next : Aggregate T K}
    (h : w.OnSet base items gone added) (step : QueueStep queue (.set items) op next) :
    ∃ items' gone' added', next = .set items' ∧ (w.addOp op).OnSet base items' gone' added' := by
  cases step with
  | clear =>
    refine ⟨∅, [], [], rfl, ?_⟩
    exact ⟨rfl, rfl, rfl, List.Pairwise.nil, fun e he => absurd he List.not_mem_nil, rfl⟩
  | insert _ e hnone => exact ⟨_, _, _, rfl, h.insert hnone⟩
  | erase _ e hsome =>
    obtain ⟨gone', added', hwork⟩ := h.erase hsome
    exact ⟨_, _, _, rfl, hwork⟩

end OnSet

end QueueWork

end LazyCollections
