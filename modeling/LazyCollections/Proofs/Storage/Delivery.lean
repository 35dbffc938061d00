import Mathlib.Data.List.Perm.Basic
import LazyCollections.Proofs.Except
import LazyCollections.Proofs.Storage.Work

/-!
# What a store tells about its rows

Loading the rows that hold some contents gives these contents back. Probes agree with the contents
as well: the size, the presence of an identity, and the entry under a key.
-/

namespace LazyCollections

set_option autoImplicit false

variable {T : ElementType} {K : Scalar}

theorem Aggregate.KeyedById.ofList_eq {items : SortedMap T.Id T.Element}
    (ha : (set items : Aggregate T K).KeyedById) {entries : List (T.Id × T.Element)}
    (hperm : entries.Perm items.entries) :
    SortedMap.ofList (entries.map fun e => (T.idOf e.2, e.2)) = items := by
  apply SortedMap.ofList_eq
  intro e
  rw [List.mem_map]
  constructor
  · rintro ⟨d, hd, rfl⟩
    have hmem := hperm.mem_iff.mp hd
    rw [← ha d hmem]
    exact hmem
  · intro he
    exact ⟨e, hperm.mem_iff.mpr he, by rw [← ha e he]⟩

namespace Builder

theorem writeSlot_length {α : Type} (slots : List (Option α)) (e : Option α) :
    writeSlot slots slots.length e = slots ++ [e] := by
  have hone : slots.length + 1 - slots.length = 1 := by omega
  simp [writeSlot, hone]

theorem foldlM_addRow_sequence {values : List Value} {slots : List (Option T.Element)}
    (h : List.Forall₂ (fun v slot => T.internalizeSlot v = .ok slot) values slots)
    (before : List (Option T.Element)) :
    (values.zipIdx before.length).foldlM
        (fun a r => addRow a (.index r.2) r.1) (.sequence before : Aggregate T K) =
      .ok (.sequence (before ++ slots)) := by
  induction h generalizing before with
  | nil => simp; rfl
  | @cons v slot values slots hslot _ ih =>
    have hrow : addRow (.sequence before : Aggregate T K) (.index before.length) v =
        .ok (.sequence (before ++ [slot])) := by
      rw [addRow, hslot, ← writeSlot_length]
      rfl
    have hrest := ih (before ++ [slot])
    rw [List.length_append, List.append_assoc] at hrest
    rw [List.zipIdx_cons, List.foldlM_cons, hrow]
    exact hrest

theorem internalize_of_internalizeSlot {v : Value} {e : T.Element}
    (h : T.internalizeSlot v = .ok (some e)) : v.isNull = false ∧ T.internalize v = .ok e := by
  rw [ElementType.internalizeSlot] at h
  split at h
  next => cases h
  next hnull =>
    obtain ⟨d, hv, h⟩ := bind_eq_ok.mp h
    cases h
    exact ⟨Bool.eq_false_iff.mpr hnull, hv⟩

theorem foldlM_addRow_set {values : List Value} {es : List T.Element}
    (h : List.Forall₂ (fun v e => T.internalizeSlot v = .ok (some e)) values es)
    (items : SortedMap T.Id T.Element) :
    values.foldlM (fun a r => addRow a .unordered r) (.set items : Aggregate T K) =
      .ok (.set ((es.map fun e => (T.idOf e, e)).foldl (fun m e => m.insert e.1 e.2) items)) := by
  induction h generalizing items with
  | nil => rfl
  | @cons v e values es he _ ih =>
    obtain ⟨hnull, hread⟩ := internalize_of_internalizeSlot he
    have hrow : addRow (.set items : Aggregate T K) .unordered v =
        .ok (.set (items.insert (T.idOf e) e)) := by
      rw [addRow, hnull, hread]
      rfl
    rw [List.foldlM_cons, hrow]
    exact ih _

theorem foldlM_addRow_keyed {rows : List (Value × Value)} {es : List (K.Carrier × T.Element)}
    (h : List.Forall₂ (fun r e => K.fromValue? r.1 = some e.1 ∧
      T.internalizeSlot r.2 = .ok (some e.2)) rows es)
    (items : SortedMap K.Carrier T.Element) :
    rows.foldlM (fun a r => addRow a (.key r.1) r.2) (.keyed items : Aggregate T K) =
      .ok (.keyed (es.foldl (fun m e => m.insert e.1 e.2) items)) := by
  induction h generalizing items with
  | nil => rfl
  | @cons r e rows es he _ ih =>
    obtain ⟨hnull, hread⟩ := internalize_of_internalizeSlot he.2
    have hrow : addRow (.keyed items : Aggregate T K) (.key r.1) r.2 =
        .ok (.keyed (items.insert e.1 e.2)) := by
      rw [addRow, hnull, hread, Scalar.fromValue, he.1]
      rfl
    rw [List.foldlM_cons, hrow]
    exact ih _

theorem foldlM_addRow_rows (hT : T.Storable) (hK : K.Restores) {stored : StoredRows}
    {a : Aggregate T K} (ha : a.KeyedById) (h : stored.Holds a) :
    stored.rows.foldlM (fun a r => addRow a r.1 r.2) (.empty a.shape) = .ok a := by
  cases h with
  | sequence slots =>
    rw [StoredRows.rows, List.foldlM_map]
    refine foldlM_addRow_sequence ?_ []
    rw [List.forall₂_map_left_iff, List.forall₂_same]
    exact fun slot _ => hT.internalizeSlot_slotForm slot
  | @set rows items h =>
    rw [SortedMap.values, List.map_map] at h
    obtain ⟨entries, rfl, hperm⟩ := (congrFun₂ (List.eq_map_comp_perm _) rows items.entries).mpr h
    have hitems := ha.ofList_eq hperm
    have hforms : List.Forall₂ (fun v e => T.internalizeSlot v = .ok (some e))
        (entries.map (T.form ∘ Prod.snd)) (entries.map Prod.snd) := by
      rw [List.forall₂_map_left_iff, List.forall₂_map_right_iff, List.forall₂_same]
      exact fun e _ => hT.internalizeSlot_slotForm (some e.2)
    have hread := foldlM_addRow_set (K := K) hforms ∅
    simp only [List.map_map] at hread
    rw [← hitems, StoredRows.rows, List.foldlM_map]
    exact hread
  | @keyed rows items h =>
    obtain ⟨entries, rfl, hperm⟩ := (congrFun₂ (List.eq_map_comp_perm _) rows items.entries).mpr h
    have hitems : SortedMap.ofList entries = items :=
      SortedMap.ofList_eq fun _ => hperm.mem_iff
    have hforms : List.Forall₂ (fun r e => K.fromValue? r.1 = some e.1 ∧
        T.internalizeSlot r.2 = .ok (some e.2)) (entries.map (entryForm T K)) entries := by
      rw [List.forall₂_map_left_iff, List.forall₂_same]
      exact fun e _ => ⟨hK e.1, hT.internalizeSlot_slotForm (some e.2)⟩
    have hread := foldlM_addRow_keyed hforms ∅
    rw [← hitems, StoredRows.rows, List.foldlM_map]
    exact hread

theorem addRow_keeps {a b : Aggregate T K} {slot : RowSlot} {v : Value}
    (h : addRow a slot v = .ok b) (ha : a.KeyedById) : b.shape = a.shape ∧ b.KeyedById := by
  unfold addRow at h
  split at h
  next =>
    obtain ⟨e, _, h⟩ := bind_eq_ok.mp h
    cases h
    exact ⟨rfl, trivial⟩
  next =>
    obtain ⟨e, _, h⟩ := bind_eq_ok.mp h
    cases h
    exact ⟨rfl, trivial⟩
  next items =>
    split at h
    next =>
      cases h
      exact ⟨rfl, ha⟩
    next =>
      obtain ⟨e, _, h⟩ := bind_eq_ok.mp h
      cases h
      exact ⟨rfl, ha.insert e⟩
  next =>
    split at h
    next =>
      cases h
      exact ⟨rfl, ha⟩
    next =>
      obtain ⟨key, _, h⟩ := bind_eq_ok.mp h
      obtain ⟨e, _, h⟩ := bind_eq_ok.mp h
      cases h
      exact ⟨rfl, trivial⟩
  next => cases h

theorem readAll_eq (rows : List (RowSlot × Value)) (b : Builder T K) :
    b.readAll rows =
      (rows.foldlM (fun a r => addRow a r.1 r.2) b.aggregate).map
        fun a => { b with aggregate := a } := by
  rw [readAll]
  induction rows generalizing b with
  | nil => rfl
  | cons r rows ih =>
    rw [List.foldlM_cons, List.foldlM_cons, read]
    cases addRow b.aggregate r.1 r.2 with
    | error error => rfl
    | ok a => exact ih { b with aggregate := a }

theorem readAll_cons_eq_ok {row : RowSlot × Value} {rows : List (RowSlot × Value)}
    {b last : Builder T K} :
    b.readAll (row :: rows) = .ok last ↔
      ∃ a, addRow b.aggregate row.1 row.2 = .ok a ∧
        readAll ⟨a, b.anticipated⟩ rows = .ok last := by
  rw [readAll, List.foldlM_cons, read, bind_assoc, bind_eq_ok]
  rfl

theorem readAll_keeps {rows : List (RowSlot × Value)} {b last : Builder T K}
    (h : b.readAll rows = .ok last) (hb : b.aggregate.KeyedById) :
    last.aggregate.shape = b.aggregate.shape ∧ last.aggregate.KeyedById := by
  induction rows generalizing b with
  | nil =>
    cases h
    exact ⟨rfl, hb⟩
  | cons row rows ih =>
    obtain ⟨a, hadded, h⟩ := readAll_cons_eq_ok.mp h
    obtain ⟨hshape, ha⟩ := addRow_keeps hadded hb
    obtain ⟨hrest, hlast⟩ := ih h ha
    exact ⟨hrest.trans hshape, hlast⟩

end Builder

namespace Feed

theorem foldlM_step_rows (rows : List (RowSlot × Value)) (b : Builder T K) :
    (rows.map fun r => FeedEvent.row r.1 r.2).foldlM step b =
      (rows.foldlM (fun a r => Builder.addRow a r.1 r.2) b.aggregate).map
        fun a => { b with aggregate := a } := by
  rw [List.foldlM_map]
  exact Builder.readAll_eq rows b

theorem step_keeps {b next : Builder T K} {event : FeedEvent} (h : step b event = .ok next)
    (hb : b.aggregate.KeyedById) :
    next.aggregate.shape = b.aggregate.shape ∧ next.aggregate.KeyedById := by
  cases event with
  | announce size =>
    cases h
    exact ⟨Aggregate.shape_cleared _, Aggregate.keyedById_empty _⟩
  | row slot v =>
    obtain ⟨a, hrow, h⟩ := bind_eq_ok.mp h
    cases h
    exact Builder.addRow_keeps hrow hb

theorem foldlM_step_keeps {events : List FeedEvent} {b last : Builder T K}
    (h : events.foldlM step b = .ok last) (hb : b.aggregate.KeyedById) :
    last.aggregate.shape = b.aggregate.shape ∧ last.aggregate.KeyedById := by
  induction events generalizing b with
  | nil =>
    cases h
    exact ⟨rfl, hb⟩
  | cons event events ih =>
    rw [List.foldlM_cons] at h
    obtain ⟨next, hstep, h⟩ := bind_eq_ok.mp h
    obtain ⟨hshape, hnext⟩ := step_keeps hstep hb
    obtain ⟨hrest, hlast⟩ := ih h hnext
    exact ⟨hrest.trans hshape, hlast⟩

/-- What a feed delivers has the shape that was asked for, and in a set every element stands under
its own identity. -/
theorem contents_eq_ok {feed : Feed} {shape : Shape} {a : Aggregate T K}
    (h : feed.contents shape = .ok a) : a.shape = shape ∧ a.KeyedById := by
  obtain ⟨last, hevents, h⟩ := bind_eq_ok.mp h
  obtain ⟨hshape, hlast⟩ := foldlM_step_keeps hevents (Aggregate.keyedById_empty shape)
  cases hfailure : feed.failure with
  | some error =>
    simp only [hfailure] at h
    cases h
  | none =>
    simp only [hfailure] at h
    cases h
    exact ⟨hshape.trans (Aggregate.shape_empty shape), hlast⟩

end Feed

/-- The rows of a role are identified by the identities of the elements that they hold. -/
def Store.Identifies (T : ElementType) (store : Store) (role : Role) : Prop :=
  ∀ e : T.Element, store.identify role (T.form e) = T.idForm e

/-- What a question to the store leaves alone. -/
structure Store.Agrees (store later : Store) : Prop where
  collections : later.collections = store.collections
  identities : later.identities = store.identities
  offline : later.offline = store.offline

namespace Store

variable {store later : Store} {key : CollectionKey} {a : Aggregate T K}

theorem Agrees.refl (store : Store) : store.Agrees store :=
  ⟨rfl, rfl, rfl⟩

theorem Agrees.holdsAt (h : store.Agrees later) (ha : store.HoldsAt key a) :
    later.HoldsAt key a := by
  obtain ⟨rows, hrows, hholds⟩ := ha
  refine ⟨rows, ?_, hholds⟩
  rwa [rows?, h.collections]

theorem Agrees.identifies (h : store.Agrees later) {role : Role}
    (hid : store.Identifies T role) : later.Identifies T role := by
  intro e
  rw [identify, h.identities]
  exact hid e

theorem Identifies.identifiedBy (hT : T.StorableId) {role : Role}
    (h : store.Identifies T role) : T.IdentifiedBy (store.identify role) := by
  intro x y
  rw [h x, h y]
  exact hT.idForm_eq_iff x y

theorem identifies_of_registered (hT : T.Storable) (hid : T.StorableId) {role : Role}
    (h : store.identities.get? role =
      some fun v => (T.internalize v >>= T.externalizeId).toOption) :
    store.Identifies T role := by
  intro e
  have hread : (T.internalize (T.form e) >>= T.externalizeId) = .ok (T.idForm e) := by
    rw [hT.internalize_form]
    exact hid.externalizeId_eq e
  simp only [identify, h, hread]
  rfl

theorem contents_load_offline (h : store.offline = true) (key : CollectionKey) (shape : Shape) :
    ((load key store).1.contents shape : Except Error (Aggregate T K)) = .error offlineError := by
  rw [load, if_pos h]
  rfl

theorem agrees_load (store : Store) (key : CollectionKey) : store.Agrees (load key store).2 := by
  unfold load
  split
  · exact .refl store
  · exact ⟨rfl, rfl, rfl⟩

theorem contents_load (hT : T.Storable) (hK : K.Restores) (hon : store.offline = false)
    (ha : a.KeyedById) (h : store.HoldsAt key a) :
    (load key store).1.contents a.shape = .ok a := by
  obtain ⟨rows, hrows, hholds⟩ := h
  have hread := Builder.foldlM_addRow_rows hT hK ha hholds
  have hstart : Feed.step (Builder.start a.shape : Builder T K) (.announce rows.size) =
      .ok ⟨.empty a.shape, some rows.size⟩ := by
    simp [Feed.step, Builder.announce, Builder.start, Aggregate.cleared_eq]
  have hrest := Feed.foldlM_step_rows rows.rows (⟨.empty a.shape, some rows.size⟩ : Builder T K)
  rw [hread] at hrest
  simp only [load, hon, hrows, Feed.contents, Option.map_some, Option.getD_some,
    Bool.false_eq_true, if_false, List.foldlM_cons, hstart]
  change (List.foldlM Feed.step _ _ >>= fun b => Except.ok b.aggregate) = _
  rw [hrest]
  rfl

/-- An offline store fails; otherwise a probe is answered from the rows or not at all. -/
theorem probe_cases {α : Type} (store : Store) (key : CollectionKey)
    (answer : Option StoredRows → α) :
    (store.offline = true ∧ probe key answer store = (.error offlineError, store)) ∨
      (∃ later, store.Agrees later ∧ probe key answer store = (.ok none, later)) ∨
        ∃ later, store.Agrees later ∧
          probe key answer store = (.ok (some (answer (store.rows? key))), later) := by
  unfold probe
  split
  next hoff => exact Or.inl ⟨hoff, rfl⟩
  next =>
    split
    · exact Or.inr (Or.inr ⟨{ store with probes := store.probes + 1 }, ⟨rfl, rfl, rfl⟩, rfl⟩)
    · exact Or.inr (Or.inl ⟨store, .refl store, rfl⟩)

theorem agrees_probe {α : Type} (store : Store) (key : CollectionKey)
    (answer : Option StoredRows → α) : store.Agrees (probe key answer store).2 := by
  obtain ⟨_, h⟩ | ⟨later, hagrees, h⟩ | ⟨later, hagrees, h⟩ := probe_cases store key answer
  · rw [h]
    exact .refl store
  · rw [h]
    exact hagrees
  · rw [h]
    exact hagrees

end Store

namespace StoredRows.Holds

variable {stored : StoredRows} {a : Aggregate T K} {identify : Value → Value}

theorem any_form_eq (hT : T.Storable) (hid : T.StorableId)
    (hrows : ∀ e : T.Element, identify (T.form e) = T.idForm e) (es : List T.Element)
    (e : T.Element) :
    ((es.map T.form).any fun r => !r.isNull && identify r == T.idForm e) =
      es.any fun d => T.same d e := by
  rw [List.any_map]
  congr 1
  funext d
  rw [Function.comp_apply, hT.isNull_form, hrows, Bool.eq_iff_iff]
  simp [hid.idForm_eq_iff]

theorem holdsIdentity_eq (hT : T.Storable) (hid : T.StorableId)
    (hrows : ∀ e : T.Element, identify (T.form e) = T.idForm e) (hshape : a.shape ≠ .keyed)
    (h : Holds stored a) (e : T.Element) :
    Store.holdsIdentity identify (T.idForm e) (some stored) = a.has e := by
  cases h with
  | sequence slots =>
    rw [Aggregate.has, Aggregate.elements, ← any_form_eq hT hid hrows, Store.holdsIdentity]
    clear hshape
    induction slots with
    | nil => rfl
    | cons slot slots ih =>
      cases slot with
      | none => simpa [ElementType.slotForm, Value.isNull] using ih
      | some d =>
        rw [List.map_cons, List.any_cons, ih]
        rfl
  | set h =>
    rw [Store.holdsIdentity, h.any_eq]
    exact any_form_eq hT hid hrows _ e
  | keyed h => exact absurd rfl hshape

theorem rowAt_eq (hK : K.Restores) {items : SortedMap K.Carrier T.Element}
    (h : Holds stored (.keyed items : Aggregate T K)) (k : K.Carrier) :
    Store.rowAt (.key (K.toValue k)) (some stored) =
      match items.get? k with
      | some e => .present (T.form e)
      | none => .absent := by
  cases h with
  | @keyed rows _ h =>
    have hrow : ∀ r ∈ rows, r.1 = K.toValue k → ∃ e, items.get? k = some e ∧ r.2 = T.form e := by
      intro r hr hkey
      obtain ⟨d, hd, rfl⟩ := List.mem_map.mp (h.mem_iff.mp hr)
      obtain rfl : d.1 = k := hK.toValue_eq_iff.mp hkey
      exact ⟨d.2, SortedMap.get?_eq_some_iff.mpr hd, rfl⟩
    simp only [Store.rowAt]
    cases hfound : rows.find? fun r => r.1 == K.toValue k with
    | some r =>
      have hkey : r.1 = K.toValue k := by simpa using List.find?_some hfound
      obtain ⟨e, hget, hform⟩ := hrow r (List.mem_of_find?_eq_some hfound) hkey
      rw [hget]
      exact congrArg ElementProbe.present hform
    | none =>
      cases hget : items.get? k with
      | none => rfl
      | some e =>
        have hmem : entryForm T K (k, e) ∈ rows :=
          h.mem_iff.mpr (List.mem_map_of_mem (SortedMap.get?_eq_some_iff.mp hget))
        exact absurd BEq.rfl (List.find?_eq_none.mp hfound _ hmem)

end StoredRows.Holds

end LazyCollections
