import LazyCollections.Proofs.Collection.Loaded
import LazyCollections.Proofs.Collection.Rooted
import LazyCollections.Proofs.Refinement.Opening

/-!
# The orphans that flushes report

A collection is opened, used and flushed in any way, with the database as its only source. What a
flush reports as orphans is compared with what is stored before and after it. Loaded contents report
exactly the identities that are gone. A queue is written without a look at the other rows: it also
reports an identity that another row still has, and it does not report what a clear removes.
-/

namespace LazyCollections

set_option autoImplicit false

variable {T : ElementType} {K : Scalar}

/-- A flush hands the change set to a persister that accepts it. Storage had `before`, and has the
contents of the collection afterwards, without null slots at the end. -/
structure Setting.Flushes (s : Setting T K Database) (d : Descriptor) (a : Attachment)
    (changes : ChangeSet T.Element K.Carrier) (before now : Aggregate T K) : Prop where
  before : s.environment.source.store.contents ⟨d.role, a.owner⟩ d.shape = .ok before
  contents : s.logicalContents = .ok now
  asked : ((Action.flush Database.persister).runOn s).2.environment.source =
    (Database.persister a.owner d changes s.environment.source).2
  after : ((Action.flush Database.persister).runOn s).2.environment.source.store.contents
    ⟨d.role, a.owner⟩ d.shape = .ok now.trimmed

namespace Setting.GrownFrom

variable {d : Descriptor} {a b : Attachment} {stored now : Aggregate T K}
variable {s : Setting T K Database} {changes : ChangeSet T.Element K.Carrier} {i : T.Id}

theorem flushes (hT : T.Faithful d.shape) (hK : K.Restores)
    (hlawful : s.collection.isLoaded = true → T.Lawful d.shape) (h : s.GrownFrom d a stored now)
    (hover : s.HandsOver a changes) (hready : s.environment.source.refuseNext = false) :
    s.Flushes d a changes stored now := by
  have hasked := hover.source_flush Database.persister
  rw [h.descriptor] at hasked
  have haccepts := Database.persister_accepts hT.toStorable hready a.owner d changes
  refine ⟨h.contents_eq hT.toStorable hK, h.logicalContents_eq hT hK, hasked, ?_⟩
  rw [hasked, haccepts]
  exact (h.provides_persister hT hK hlawful hover haccepts).contents_eq hT.toStorable hK

theorem store_flush_eq (h : s.GrownFrom d a stored now)
    (hnone : ∀ changes, s.HandsOver a changes → s.environment.source.refuseNext = true) :
    ((Action.flush Database.persister).runOn s).2.environment.source.store =
      s.environment.source.store := by
  by_cases hover : ∃ changes, s.HandsOver a changes
  · obtain ⟨changes, hover⟩ := hover
    rw [hover.source_flush, Database.persister, if_pos (hnone changes hover)]
  · rw [source_flush_of_not_handsOver]
    intro b changes hb
    obtain rfl := hb.attachment_unique h.attachment
    exact hover ⟨changes, hb⟩

section Orphans

variable (h : s.GrownFrom d a stored now) (hcollects : d.options.orphanDelete = true)
include h hcollects

theorem eq_ofQueue (hover : s.HandsOver b changes) (hunloaded : s.collection.isLoaded = false) :
    changes = .ofQueue s.collection.queue true := by
  rw [hover.eq_queuedWork hunloaded, Collection.queuedWork, h.descriptor, hcollects]

/-- Loaded contents report what is gone, and all of it if there is a snapshot. -/
theorem orphans_of_loaded (hT : T.Lawful d.shape) (hover : s.HandsOver b changes)
    (hloaded : s.collection.isLoaded = true) :
    (∀ i ∈ changes.orphanIds, i ∈ stored.ids ∧ i ∉ now.ids) ∧
      (d.options.dirtyChecking = true →
        ∀ i ∈ stored.ids, i ∉ now.ids → i ∈ changes.orphanIds) := by
  obtain ⟨c, hdiff, _, hgone, hreported⟩ :=
    h.grown.diff_spec (h.shape_eq ▸ hT) h.keyedById hloaded
  rw [(hover.diff_of_loaded hloaded).1] at hdiff
  cases hdiff
  rw [h.descriptor] at hreported
  exact ⟨hgone, hreported hcollects⟩

/-- An orphan that is still stored is one of a queue that leaves another row of its identity in
place. -/
theorem orphan_stored_iff (hlawful : s.collection.isLoaded = true → T.Lawful d.shape)
    (hover : s.HandsOver b changes)
    (hi : i ∈ changes.orphanIds) :
    i ∈ now.ids ↔ s.collection.isLoaded = false ∧ i ∈ (changes.inPlace stored).ids := by
  cases hloaded : s.collection.isLoaded with
  | true =>
    have hgone := (h.orphans_of_loaded hcollects (hlawful hloaded) hover hloaded).1 i hi
    exact ⟨fun hnow => absurd hnow hgone.2, nofun⟩
  | false =>
    obtain rfl := h.eq_ofQueue hcollects hover hloaded
    rw [(h.grown.run hloaded).orphan_live_iff h.keyedById hi]
    exact ⟨fun hplaced => ⟨rfl, hplaced⟩, fun hplaced => hplaced.2⟩

theorem orphan_not_stored (hlawful : s.collection.isLoaded = true → T.Lawful d.shape)
    (hover : s.HandsOver b changes)
    (honce : stored.ids.Nodup ∨ .clear ∈ s.collection.queue) (hi : i ∈ changes.orphanIds) :
    i ∉ now.ids := by
  cases hloaded : s.collection.isLoaded with
  | true => exact ((h.orphans_of_loaded hcollects (hlawful hloaded) hover hloaded).1 i hi).2
  | false =>
    obtain rfl := h.eq_ofQueue hcollects hover hloaded
    exact (h.grown.run hloaded).orphan_gone h.keyedById (h.grown.accounts h.keyedById hloaded)
      honce hi

/-- A queue reports what is gone, except what a clear removes without having displaced it before. -/
theorem gone_reported_iff (hover : s.HandsOver b changes)
    (hunloaded : s.collection.isLoaded = false) (hstored : i ∈ stored.ids) (hgone : i ∉ now.ids) :
    i ∈ changes.orphanIds ↔ .clear ∉ s.collection.queue ∨
      i ∈ (QueueWork.ofQueue s.collection.queue).displaced.map T.idOf := by
  obtain rfl := h.eq_ofQueue hcollects hover hunloaded
  exact (h.grown.run hunloaded).orphan_iff_of_gone h.keyedById
    (h.grown.accounts h.keyedById hunloaded) hstored hgone

theorem orphanIds_subset (hlawful : s.collection.isLoaded = true → T.Lawful d.shape)
    (hover : s.HandsOver b changes) :
    changes.orphanIds ⊆ stored.ids := by
  cases hloaded : s.collection.isLoaded with
  | true =>
    have hgone := (h.orphans_of_loaded hcollects (hlawful hloaded) hover hloaded).1
    exact fun i hi => (hgone i hi).1
  | false =>
    obtain rfl := h.eq_ofQueue hcollects hover hloaded
    exact (h.grown.accounts h.keyedById hloaded).orphanIds_subset

end Orphans

end Setting.GrownFrom

def Step.runAll {Call : Type} (run : Call → Action T K Database (Answer T K))
    (steps : List (Step Call)) (s : Setting T K Database) : Setting T K Database :=
  steps.foldl (fun s step => ((step.perform run).runOn s).2) s

/-- A step keeps what calls, loading and flushing keep and the database does not decide. -/
theorem Step.perform_ensures {Call : Type} {run : Call → Action T K Database (Answer T K)}
    {s : Setting T K Database} {P : Setting T K Database → Prop}
    (hcall : ∀ call, Action.Ensures s (run call) (fun _ => P) fun _ => P)
    (hload : Action.Ensures s Action.ensureInitialized (fun _ => P) fun _ => P)
    (hflush : Action.Ensures s (Action.flush Database.persister) (fun _ => P) fun _ => P)
    (hdatabase : ∀ db : Database,
      db.store.collections = s.environment.source.store.collections →
        db.store.identities = s.environment.source.store.identities →
          P { s with environment := { s.environment with source := db } })
    (step : Step Call) : Action.Ensures s (step.perform run) (fun _ => P) fun _ => P := by
  cases step with
  | call c => exact hcall c
  | ensureInitialized => exact hload.andReturn
  | flush => exact hflush.bind fun _ _ hafter => Action.Ensures.pure hafter
  | setOffline offline => exact hdatabase _ rfl rfl
  | setProbes enabled => exact hdatabase _ rfl rfl
  | refuseNext => exact hdatabase _ rfl rfl

namespace Setting.IsLoaded

open LazyCollections.Action

theorem runAll {shape : Shape} {s : Setting T K Database} (h : s.IsLoaded)
    (steps : List (Step (ShapedCall T K shape))) :
    (Step.runAll ShapedCall.run steps s).IsLoaded := by
  induction steps generalizing s with
  | nil => exact h
  | cons step steps ih =>
    have hstep : Ensures s (step.perform ShapedCall.run) (fun _ => IsLoaded) fun _ => IsLoaded :=
      Step.perform_ensures (fun call => keeps_call call s h) (keeps_ensureInitialized s h)
        (keeps_flush _ s h) (fun _ _ _ => h) step
    exact ih hstep.after

end Setting.IsLoaded

/-- A collection as it is made in a session that loads from the database without a cache: for an
owner whose rows the store provides, or of contents for an owner without rows. -/
inductive Setting.Opened (d : Descriptor) (a : Attachment) : Setting T K Database → Prop
  | lazy {env after : Environment Database} {c : Collection T K} {stored : Aggregate T K}
    (hosted : env.Hosts a)
    (made : (EnvironmentAction.lazyCollection a.session a.slot d d.shape).runOn env =
      (.ok c, after))
    (attached : c.attachment = some a)
    (provides : env.source.store.Provides d a.owner stored) : Opened d a ⟨c, after⟩
  | wrapped {env after : Environment Database} {c : Collection T K} {contents : Aggregate T K}
    (hosted : env.Hosts a)
    (made : (EnvironmentAction.wrap a.session a.slot d contents).runOn env = (.ok c, after))
    (attached : c.attachment = some a) (keyedById : contents.KeyedById)
    (unstored : env.source.store.rows? ⟨d.role, a.owner⟩ = none)
    (identifies : d.shape ≠ .keyed → env.source.store.Identifies T d.role) : Opened d a ⟨c, after⟩

namespace Setting.IsRooted

open LazyCollections.Action

variable {d : Descriptor} {a : Attachment}

theorem of_opened {s : Setting T K Database} (h : s.Opened d a) : s.IsRooted d a := by
  cases h with
  | @lazy env after c stored hosted made attached provides =>
    have hensures : EnvironmentAction.Ensures env _ _ _ :=
      EnvironmentAction.lazyCollection_ensures (T := T) (K := K) a.session a.slot d d.shape
    rw [EnvironmentAction.Ensures, made] at hensures
    obtain ⟨hrecords, b, readOnly, rfl⟩ := hensures
    have hagrees := hrecords.agrees
    exact ⟨stored, stored,
      { toProvides := hagrees.store.provides provides
        descriptor := rfl
        attachment := attached
        grown := .queued rfl .nil fun _ _ he => absurd he List.not_mem_nil
        hosted := hagrees.hosts a hosted }⟩
  | @wrapped env after c contents hosted made attached keyedById unstored identifies =>
    have hensures : EnvironmentAction.Ensures env _ _ _ :=
      EnvironmentAction.wrap_ensures a.session a.slot d contents
    rw [EnvironmentAction.Ensures, made] at hensures
    obtain ⟨hrecords, hshape, b, rfl⟩ := hensures
    have hagrees := hrecords.agrees
    have hprovides : env.source.store.Provides d a.owner (.empty d.shape : Aggregate T K) :=
      { keeps := Store.keeps_empty unstored
        identifies
        shape_eq := Aggregate.shape_empty _
        keyedById := Aggregate.keyedById_empty _ }
    refine ⟨.empty d.shape, contents,
      { toProvides := hagrees.store.provides hprovides
        descriptor := rfl
        attachment := attached
        grown := .loaded rfl rfl (hshape.symm.trans (Aggregate.shape_empty _).symm) keyedById ?_
        hosted := hagrees.hosts a hosted }⟩
    rw [Collection.ofContents]
    cases hchecked : d.options.dirtyChecking with
    | false => exact .inl ⟨rfl, rfl⟩
    | true => exact .inr ⟨_, rfl, rfl⟩

section Steps

variable (hT : T.Faithful d.shape) (hK : K.Restores)
include hT hK

theorem keeps_call {shape : Shape} (hd : d.shape = shape) (call : ShapedCall T K shape) :
    Keeps (IsRooted d a : Setting T K Database → Prop) call.run := by
  cases call with
  | ofList call => exact (Rooted.upholdsList hT hK hd).run call
  | ofSet call => exact (Rooted.upholdsSet hT hK hd).run call
  | ofMap call => exact (Rooted.upholdsMap hT hK hd).run call

theorem step_ensures {s : Setting T K Database} (h : s.IsRooted d a)
    (hlawful : s.collection.isLoaded = true → T.Lawful d.shape)
    (step : Step (ShapedCall T K d.shape)) :
    Ensures s (step.perform ShapedCall.run) (fun _ s' => s'.IsRooted d a)
      fun _ s' => s'.IsRooted d a := by
  obtain ⟨stored, now, hrooted⟩ := h
  apply Step.perform_ensures
  · exact fun call => keeps_call hT hK rfl call s hrooted.isRooted
  · exact (hrooted.ensureInitialized_ensures hT hK).mono
      (fun _ _ hafter => hafter.1.isRooted) fun _ _ hafter => hafter.isRooted
  · exact hrooted.flush_ensures hT hK hlawful
  · exact fun db hcollections hidentities => (hrooted.withSource hcollections hidentities).isRooted

/-- After a run without a loss the collection is rooted. Only the flushes of loaded contents rely on
what the comparison of states finds. -/
theorem runAll {s : Setting T K Database} (h : s.IsRooted d a)
    (steps : List (Step (ShapedCall T K d.shape)))
    (hlawful : (Step.runAll ShapedCall.run steps s).collection.isLoaded = true →
      T.Lawful d.shape) : (Step.runAll ShapedCall.run steps s).IsRooted d a := by
  induction steps generalizing s with
  | nil => exact h
  | cons step steps ih =>
    have hbefore (hloaded : s.collection.isLoaded = true) : T.Lawful d.shape :=
      hlawful (Setting.IsLoaded.runAll hloaded (step :: steps))
    exact ih (step_ensures hT hK h hbefore step).after hlawful

end Steps

end Setting.IsRooted

def Descriptor.checkedNotes : Descriptor :=
  ⟨⟨"Order.notes"⟩, .sequence, { extraLazy := true, orphanDelete := true }⟩

def Environment.noting (notes : List String) : Environment Database :=
  .serving
    ((Store.registerIdentity (.ofScalar .text) {} ⟨"Order.notes"⟩).seed
      ⟨⟨"Order.notes"⟩, .filled 0⟩ (.sequence (notes.map .text)))
    (.filled 0)

def Setting.noting (notes : List String) : Setting (.ofScalar .text) .unkeyed Database :=
  ⟨.unloaded .checkedNotes ⟨⟨0⟩, 0, .filled 0⟩ false,
    ((EnvironmentAction.lazyCollection ⟨0⟩ 0 .checkedNotes .sequence :
      EnvironmentAction Database (Collection (.ofScalar .text) .unkeyed)).runOn
        (.noting notes)).2⟩

theorem ElementType.lawful_text (shape : Shape) : (ElementType.ofScalar .text).Lawful shape :=
  lawful_ofScalar Scalar.restores_text nofun shape

theorem Environment.provides_noting (notes : List String) (options : RoleOptions) :
    (Environment.noting notes).source.store.Provides ⟨⟨"Order.notes"⟩, .sequence, options⟩
      (.filled 0) (.sequence (notes.map some) : Aggregate (.ofScalar .text) .unkeyed) := by
  have hT := ElementType.lawful_text .sequence
  have hrows : (notes.map some).map (ElementType.ofScalar .text).slotForm = notes.map .text :=
    List.map_map
  have hholds : (StoredRows.sequence (notes.map .text)).Holds
      (.sequence (notes.map some) : Aggregate (.ofScalar .text) .unkeyed) :=
    hrows ▸ .sequence (T := .ofScalar .text) (notes.map some)
  exact Store.provides_seed hT.toStorable (hT.storableId nofun) {}
    ⟨⟨"Order.notes"⟩, .sequence, options⟩ (.filled 0) hholds trivial rfl

theorem Setting.opened_noting (notes : List String) :
    (Setting.noting notes).Opened .checkedNotes ⟨⟨0⟩, 0, .filled 0⟩ :=
  .lazy ⟨_, rfl, rfl, rfl, rfl⟩ rfl rfl (Environment.provides_noting notes _)

def Setting.noted (notes : List String)
    (steps : List (Step (ShapedCall (.ofScalar .text) .unkeyed .sequence))) :
    Setting (.ofScalar .text) .unkeyed Database :=
  Step.runAll ShapedCall.run steps (.noting notes)

section Reports

variable {d : Descriptor} {a : Attachment} {start : Setting T K Database}

/-- However a collection was used: an orphan that a flush reports is stored afterwards exactly if
the flush has written a queue and left another row of the same identity in place. No such orphan is
reported if every identity was stored once, or if every row was removed. Of loaded contents this
holds if changed states tell elements apart. -/
theorem reportedOrphan_stored_iff (hT : T.Faithful d.shape) (hK : K.Restores)
    (hcollects : d.options.orphanDelete = true) (hopened : start.Opened d a)
    (steps : List (Step (ShapedCall T K d.shape))) (changes : ChangeSet T.Element K.Carrier) :
    let s := Step.runAll ShapedCall.run steps start
    (s.collection.isLoaded = true → T.Lawful d.shape) →
      s.HandsOver a changes → s.environment.source.refuseNext = false →
        ∃ before now : Aggregate T K, s.Flushes d a changes before now ∧
          (∀ e ∈ changes.orphans, T.idOf e ∈ now.trimmed.ids ↔
            s.collection.isLoaded = false ∧ T.idOf e ∈ (changes.inPlace before).ids) ∧
          (before.ids.Nodup ∨ .clear ∈ s.collection.queue →
            ∀ e ∈ changes.orphans, T.idOf e ∉ now.trimmed.ids) := by
  intro s hlawful hover hready
  obtain ⟨before, now, h⟩ := (Setting.IsRooted.of_opened hopened).runAll hT hK steps hlawful
  have hid {e : T.Element} (he : e ∈ changes.orphans) : T.idOf e ∈ changes.orphanIds :=
    List.mem_map_of_mem he
  refine ⟨before, now, h.flushes hT hK hlawful hover hready, fun e he => ?_, fun honce e he => ?_⟩
  · rw [now.ids_trimmed]
    exact h.orphan_stored_iff hcollects hlawful hover (hid he)
  · rw [now.ids_trimmed]
    exact h.orphan_not_stored hcollects hlawful hover honce (hid he)

/-- One of two equal notes is removed. It is reported, and it is still stored. -/
theorem reportedOrphan_stored_iff_notes :
    ∃ before now : Aggregate (.ofScalar .text) .unkeyed,
      (Setting.noted ["urgent", "urgent"] [.call (.ofList (.remove "urgent"))]).Flushes
          .checkedNotes ⟨⟨0⟩, 0, .filled 0⟩
          { deletions := [⟨.unordered, "urgent"⟩], orphans := ["urgent"] } before now ∧
        ((ElementType.ofScalar .text).idOf "urgent" ∈ now.trimmed.ids ↔
          (ElementType.ofScalar .text).idOf "urgent" ∈
            (ChangeSet.inPlace { deletions := [⟨.unordered, "urgent"⟩], orphans := ["urgent"] }
              before).ids) := by
  have hT := ElementType.lawful_text .sequence
  obtain ⟨before, now, hflushes, hstored, _⟩ := reportedOrphan_stored_iff hT.faithful
    Scalar.restores_unkeyed rfl (Setting.opened_noting ["urgent", "urgent"])
    [.call (.ofList (.remove "urgent"))]
    { deletions := [⟨.unordered, "urgent"⟩], orphans := ["urgent"] } (fun _ => hT)
    (.queue ⟨rfl, by decide +kernel, rfl, nofun, rfl⟩ rfl) rfl
  refine ⟨before, now, hflushes, ?_⟩
  rw [hstored "urgent" (List.mem_singleton_self _)]
  exact and_iff_right rfl

theorem Setting.reportedOrphan_stored :
    (Setting.noted ["urgent", "urgent"] [.call (.ofList (.remove "urgent"))]).HandsOver
        ⟨⟨0⟩, 0, .filled 0⟩ { deletions := [⟨.unordered, "urgent"⟩], orphans := ["urgent"] } ∧
      ((Action.flush Database.persister).runOn (Setting.noted ["urgent", "urgent"]
          [.call (.ofList (.remove "urgent"))])).2.environment.source.store.contents
        ⟨⟨"Order.notes"⟩, .filled 0⟩ .sequence =
          .ok (.sequence [some "urgent"] : Aggregate (.ofScalar .text) .unkeyed) :=
  ⟨.queue ⟨rfl, by decide +kernel, rfl, nofun, rfl⟩ rfl, rfl⟩

/-- However a collection was used: a flush of its queue reports an identity that is gone exactly if
nothing was cleared, or if it was displaced by itself before. Where nothing was cleared and every
identity was stored once, it reports what a flush of loaded contents reports, which is exactly what
is gone, if changed states tell elements apart. A flush that hands nothing over, or that is refused,
takes nothing away. -/
theorem goneIdentity_reported_iff (hT : T.Faithful d.shape) (hK : K.Restores)
    (hcollects : d.options.orphanDelete = true) (hopened : start.Opened d a)
    (steps : List (Step (ShapedCall T K d.shape))) :
    let s := Step.runAll ShapedCall.run steps start
    (s.collection.isLoaded = true → T.Lawful d.shape) →
      (∀ changes : ChangeSet T.Element K.Carrier,
        s.HandsOver a changes → s.environment.source.refuseNext = false →
          ∃ before now : Aggregate T K, s.Flushes d a changes before now ∧
            (s.collection.isLoaded = false →
              (∀ i ∈ before.ids, i ∉ now.trimmed.ids →
                (i ∈ changes.orphanIds ↔ .clear ∉ s.collection.queue ∨
                  i ∈ (QueueWork.ofQueue s.collection.queue).displaced.map T.idOf)) ∧
              (.clear ∉ s.collection.queue → before.ids.Nodup →
                ∀ i, i ∈ changes.orphanIds ↔ i ∈ before.ids ∧ i ∉ now.trimmed.ids)) ∧
            (s.collection.isLoaded = true → d.options.dirtyChecking = true →
              ∀ i, i ∈ changes.orphanIds ↔ i ∈ before.ids ∧ i ∉ now.trimmed.ids)) ∧
        ((∀ changes, s.HandsOver a changes → s.environment.source.refuseNext = true) →
          ((Action.flush Database.persister).runOn s).2.environment.source.store =
            s.environment.source.store) := by
  intro s hlawful
  obtain ⟨before, now, h⟩ := (Setting.IsRooted.of_opened hopened).runAll hT hK steps hlawful
  refine ⟨fun changes hover hready => ?_, h.store_flush_eq⟩
  refine ⟨before, now, h.flushes hT hK hlawful hover hready, ?_, ?_⟩
  · intro hunloaded
    have hreported {i : T.Id} := h.gone_reported_iff (i := i) hcollects hover hunloaded
    refine ⟨fun i hi hgone => hreported hi (by rwa [now.ids_trimmed] at hgone), ?_⟩
    intro hclear hnodup i
    rw [now.ids_trimmed]
    constructor
    · intro hi
      exact ⟨h.orphanIds_subset hcollects hlawful hover hi,
        h.orphan_not_stored hcollects hlawful hover (.inl hnodup) hi⟩
    · rintro ⟨hi, hgone⟩
      exact (hreported hi hgone).mpr (.inl hclear)
  · intro hloaded hchecked i
    rw [now.ids_trimmed]
    obtain ⟨hgone, hreported⟩ := h.orphans_of_loaded hcollects (hlawful hloaded) hover hloaded
    exact ⟨fun hi => hgone i hi, fun hi => hreported hchecked i hi.1 hi.2⟩

/-- A note is removed, and then all are. Only the first is reported. -/
theorem goneIdentity_reported_iff_notes :
    ∃ before now : Aggregate (.ofScalar .text) .unkeyed,
      (Setting.noted ["fragile", "urgent"] [.call (.ofList (.remove "urgent")),
          .call (.ofList .clear)]).Flushes .checkedNotes ⟨⟨0⟩, 0, .filled 0⟩
          { truncate := true, orphans := ["urgent"] } before now ∧
        ∀ i ∈ before.ids, i ∉ now.trimmed.ids →
          (i ∈ ChangeSet.orphanIds (K := .unkeyed) { truncate := true, orphans := ["urgent"] } ↔
            i = (ElementType.ofScalar .text).idOf "urgent") := by
  have hT := ElementType.lawful_text .sequence
  obtain ⟨before, now, hflushes, hqueued, _⟩ := (goneIdentity_reported_iff hT.faithful
    Scalar.restores_unkeyed rfl (Setting.opened_noting ["fragile", "urgent"])
    [.call (.ofList (.remove "urgent")), .call (.ofList .clear)] fun _ => hT).1
    { truncate := true, orphans := ["urgent"] }
    (.queue ⟨rfl, by decide +kernel, rfl, nofun, rfl⟩ rfl) rfl
  refine ⟨before, now, hflushes, fun i hi hgone => ?_⟩
  rw [(hqueued rfl).1 i hi hgone, or_iff_right fun hclear => hclear (List.mem_cons_of_mem _
    (List.mem_singleton_self _))]
  exact List.mem_singleton

/-- A clear that is queued is handed over without orphans, and one of loaded notes with them. -/
theorem Setting.clear_unreported :
    (Setting.noted ["urgent"] [.call (.ofList .clear)]).HandsOver ⟨⟨0⟩, 0, .filled 0⟩
        { truncate := true } ∧
      (Setting.noted ["urgent"] [.call (.ofList .clear)]).environment.source.store.contents
        ⟨⟨"Order.notes"⟩, .filled 0⟩ .sequence =
          .ok (.sequence [some "urgent"] : Aggregate (.ofScalar .text) .unkeyed) ∧
      ((Action.flush Database.persister).runOn (Setting.noted ["urgent"]
          [.call (.ofList .clear)])).2.environment.source.store.contents
        ⟨⟨"Order.notes"⟩, .filled 0⟩ .sequence =
          .ok (.sequence [] : Aggregate (.ofScalar .text) .unkeyed) ∧
      (Setting.noted ["urgent"] [.ensureInitialized, .call (.ofList .clear)]).HandsOver
        ⟨⟨0⟩, 0, .filled 0⟩ { deletions := [⟨.index 0, "urgent"⟩], orphans := ["urgent"] } :=
  ⟨.queue ⟨rfl, by decide +kernel, rfl, nofun, rfl⟩ rfl, rfl, rfl,
    .contents ⟨rfl, rfl, rfl, rfl, rfl, rfl⟩⟩

end Reports

end LazyCollections
