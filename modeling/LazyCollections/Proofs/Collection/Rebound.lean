import LazyCollections.Proofs.Collection.Backing
import LazyCollections.Proofs.Collection.Reports

/-!
# Collections that change owners

A loaded collection keeps its contents and its snapshot when it is detached and bound again, to the
owner of before or to another one. What its next flush writes is still the difference from the
snapshot. That makes the rows of the new owner into the contents if they were what the snapshot is a
copy of. Other rows are changed by a difference that was not theirs, or not at all if the contents
are those of before.
-/

namespace LazyCollections

set_option autoImplicit false

variable {T : ElementType} {K : Scalar} {shape : Shape}

/-- The move writes no rows: it is not a flush, and what happens around the collection leaves rows
and their identities as they are. -/
def Move.SparesRows : Move T K Database shape → Prop
  | flush _ => False
  | surroundings change => ∀ env : Environment Database,
    env.source.store.SameRows (change env).source.store
  | _ => True

/-- A loaded collection with the given snapshot, over the rows of a store. -/
structure Setting.Carries (d : Descriptor) (snapshot : Option (Aggregate T K)) (store : Store)
    (s : Setting T K Database) : Prop where
  loaded : s.IsLoaded
  descriptor : s.collection.descriptor = d
  snapshot : s.collection.snapshot = snapshot
  rows : store.SameRows s.environment.source.store

namespace Setting.Carries

open LazyCollections.Action

variable {d : Descriptor} {snapshot : Option (Aggregate T K)} {store : Store}
variable {s : Setting T K Database}

theorem onCollection (h : s.Carries d snapshot store) {c : Collection T K}
    (hloaded : c.isLoaded = s.collection.isLoaded)
    (hdescriptor : c.descriptor = s.collection.descriptor)
    (hsnapshot : c.snapshot = s.collection.snapshot) :
    Setting.Carries d snapshot store { s with collection := c } :=
  { h with
    loaded := hloaded.trans h.loaded
    descriptor := hdescriptor.trans h.descriptor
    snapshot := hsnapshot.trans h.snapshot }

theorem onEnvironment (h : s.Carries d snapshot store) {env : Environment Database}
    (hrows : s.environment.source.store.SameRows env.source.store) :
    Setting.Carries d snapshot store { s with environment := env } :=
  { h with rows := h.rows.trans hrows }

theorem keeps_ensureInitialized :
    Keeps (Setting.Carries d snapshot store : Setting T K Database → Prop) ensureInitialized :=
  Setting.IsLoaded.keeps_ensureInitialized_of Carries.loaded

theorem keeps_call (call : ShapedCall T K shape) :
    Keeps (Setting.Carries d snapshot store) call.run := by
  refine Setting.IsLoaded.keeps_call_of Carries.loaded ?_ call
  intro s contents later h hlater
  exact (h.onCollection (c := { s.collection with contents, dirty := true }) rfl rfl
    rfl).onEnvironment hlater.agrees.store.sameRows

theorem bind (h : s.Carries d snapshot store) (session : SessionId) (slot : Nat) :
    ((Action.bind session slot).runOn s).2.Carries d snapshot store := by
  apply Ensures.after (R := Setting.Carries d snapshot store)
  refine (bind_effect session slot).mono ?_ ?_
  · rintro _ _ ⟨-, a, -, -, -, rfl⟩
    have hrecords := (s.environment.records_hold a s.collection.role).trans
      (Environment.records_letGo _ s.collection.tie)
    exact (h.onCollection (s.collection.isLoaded_findSession a) rfl rfl).onEnvironment
      hrecords.agrees.store.sameRows
  · rintro _ _ ⟨rfl, -⟩
    exact h

theorem unbind (h : s.Carries d snapshot store) :
    (Action.unbind.runOn s).2.Carries d snapshot store := by
  apply Ensures.after (R := Setting.Carries d snapshot store)
  refine unbind_effect.post ?_
  rintro _ _ rfl
  have hlost : s.collection.loseSession = s.collection := by
    rw [Collection.loseSession, if_neg h.loaded.stage_ne]
  rw [hlost]
  exact (h.onCollection (c := { s.collection with attachment := none }) rfl rfl
    rfl).onEnvironment (s.environment.records_letGo _).agrees.store.sameRows

theorem after (h : s.Carries d snapshot store) {move : Move T K Database shape}
    (hmove : move.SparesRows) : (move.after s).Carries d snapshot store := by
  cases move with
  | call call => exact (keeps_call call).after h
  | ensureInitialized => exact keeps_ensureInitialized.after h
  | assemble entry =>
    apply Ensures.after (R := Setting.Carries d snapshot store)
    refine (assemble_effect entry).mono ?_ ?_
    · rintro _ _ ⟨hstage, -⟩
      exact absurd hstage h.loaded.stage_ne
    · rintro _ _ rfl
      exact h
  | disassemble =>
    have hkeeps : Keeps (Setting.Carries d snapshot store : Setting T K Database → Prop)
        disassemble :=
      keeps_ensureInitialized.bind fun _ =>
        Keeps.bind (fun _ hs => hs) fun c => Keeps.ofExcept (CacheEntry.ofAggregate c.contents)
    exact hkeeps.after h
  | flush persister => exact hmove.elim
  | bind session slot => exact h.bind session slot
  | unbind => exact h.unbind
  | setReadOnly readOnly =>
    exact h.onCollection (s.collection.isLoaded_setReadOnly readOnly) rfl rfl
  | setCachedSize size =>
    have hsame : s.collection.setCachedSize size = s.collection := if_pos h.loaded
    rw [Move.after, hsame]
    exact h
  | surroundings change => exact h.onEnvironment (hmove _)

theorem runAll (h : s.Carries d snapshot store) {moves : List (Move T K Database shape)}
    (hmoves : ∀ move ∈ moves, move.SparesRows) :
    (Move.runAll moves s).Carries d snapshot store := by
  induction moves generalizing s with
  | nil => exact h
  | cons move moves ih =>
    exact ih (h.after (hmoves move List.mem_cons_self))
      fun later hlater => hmoves later (List.mem_cons_of_mem _ hlater)

end Setting.Carries

/-- A flush changes the rows that an owner has by the difference from the snapshot, or it writes
nothing because the contents are what the snapshot is a copy of. Where the rows were that, they
become the contents. -/
structure Setting.FlushesOver (s : Setting T K Database) (stored there rows : Aggregate T K)
    (outcome : FlushOutcome) : Prop where
  written : outcome.wrote = true → ∃ changes, s.collection.diff = .ok changes ∧
    changes.carryOut stored = s.collection.contents.trimmed ∧ rows = changes.carryOut there
  unwritten : outcome.wrote = false →
    rows = there ∧ s.collection.contents.trimmed = stored.trimmed
  same : there.trimmed = stored.trimmed → rows.trimmed = s.collection.contents.trimmed

/-- A loaded collection that goes back to a base, and is attached to an owner. -/
structure Setting.Reattached (d : Descriptor) (b : Attachment) (base : Aggregate T K)
    (s : Setting T K Database) : Prop where
  loaded : s.collection.isLoaded = true
  descriptor : s.collection.descriptor = d
  sound : s.collection.Sound
  backed : s.collection.Backed base
  attachment : s.collection.attachment = some b

namespace Setting.Reattached

open LazyCollections.Action

variable {d : Descriptor} {a b : Attachment} {base stored there : Aggregate T K}
variable {s : Setting T K Database} (hT : T.Lawful d.shape)
include hT

theorem diff_spec (h : s.Reattached d b base) :
    ∃ changes, s.collection.diff = .ok changes ∧
      ∀ a : Aggregate T K, a.trimmed = base.trimmed →
        changes.carryOut a = s.collection.contents.trimmed := by
  have hshape : base.shape = s.collection.contents.shape := by
    rw [h.backed.base_shape, h.sound.contents_shape]
  have hlawful : T.Lawful base.shape := by rwa [h.backed.base_shape, h.descriptor]
  have hspec (a : Aggregate T K) (ha : a.trimmed = base.trimmed) :
      ∃ changes, s.collection.diff = .ok changes ∧
        changes.carryOut a = s.collection.contents.trimmed := by
    obtain ⟨changes, hdiff, hcarry, -⟩ := carryOut_diff_of_trimmed_eq hlawful.tellsApart ha hshape
      h.backed.base_keyedById h.sound.keyedById s.collection.descriptor.options.orphanDelete
    refine ⟨changes, ?_, hcarry⟩
    rw [Collection.diff, if_pos h.loaded, h.backed.snapshot, Aggregate.deepCopy_eq hT.faithful,
      hdiff]
  obtain ⟨changes, hdiff, -⟩ := hspec base rfl
  refine ⟨changes, hdiff, fun a ha => ?_⟩
  obtain ⟨_, hdiff', hcarry⟩ := hspec a ha
  rw [hdiff] at hdiff'
  cases hdiff'
  exact hcarry

theorem contents_eq (h : s.Reattached d b base)
    (hequal : equalsSnapshot base.deepCopy s.collection.contents = true) :
    s.collection.contents = base :=
  h.backed.contents_eq h.sound (h.descriptor.symm ▸ hT) hequal

theorem unwritten (h : s.Reattached d b base) (hstored : base.trimmed = stored.trimmed)
    (hequal : equalsSnapshot base.deepCopy s.collection.contents = true) {outcome : FlushOutcome}
    (hwrote : outcome.wrote = false) : s.FlushesOver stored there there outcome := by
  have hcontents : s.collection.contents.trimmed = stored.trimmed := by
    rw [h.contents_eq hT hequal, hstored]
  exact
    { written := fun hwritten => by
        rw [hwrote] at hwritten
        cases hwritten
      unwritten := fun _ => ⟨rfl, hcontents⟩
      same := fun hsame => hsame.trans hcontents.symm }

theorem written (h : s.Reattached d b base) (hstored : base.trimmed = stored.trimmed)
    {changes : ChangeSet T.Element K.Carrier} (hdiff : s.collection.diff = .ok changes) :
    s.FlushesOver stored there (changes.carryOut there) (.ofChanges changes) := by
  obtain ⟨_, hdiff', hcarry⟩ := h.diff_spec hT
  rw [hdiff] at hdiff'
  cases hdiff'
  exact
    { written := fun _ => ⟨changes, hdiff, hcarry stored hstored.symm, rfl⟩
      unwritten := nofun
      same := fun hsame => by
        rw [hcarry there (hsame.trans hstored.symm), Aggregate.trimmed_trimmed] }

theorem flush_of_handsOver (hK : K.Restores) (h : s.Reattached d b base)
    (hstored : base.trimmed = stored.trimmed)
    (hthere : s.environment.source.store.Provides d b.owner there)
    {changes : ChangeSet T.Element K.Carrier} (hover : s.HandsOver a changes) :
    Ensures s (Action.flush Database.persister)
      (fun outcome after => ∃ rows, after.environment.source.store.Provides d b.owner rows ∧
        s.FlushesOver stored there rows outcome) fun _ _ => True := by
  obtain rfl := hover.attachment_unique h.attachment
  apply Ensures.flush_of_handsOver hover
  · intro source haccepted session _ later hlater
    rw [h.descriptor] at haccepted
    have hrows := hthere.apply hT.faithful hK changes
    rw [← Database.store_of_persister_ok hT.toStorable haccepted] at hrows
    have hsource : later.source = source := hlater.source
    refine (EnvironmentAction.Ensures.evictCache
      (P := fun db => db.store.Provides d a.owner (changes.carryOut there)) ?_ _ _ _).mono ?_
      fun _ _ _ => trivial
    · rwa [hsource]
    · exact fun _ env henv => ⟨_, henv, h.written hT hstored (hover.diff_of_loaded h.loaded).1⟩
  · exact fun _ _ _ => trivial

theorem flush (hK : K.Restores) (h : s.Reattached d b base)
    (hstored : base.trimmed = stored.trimmed)
    (hthere : s.environment.source.store.Provides d b.owner there)
    (hwritable : s.collection.readOnly = false) :
    Ensures s (Action.flush Database.persister)
      (fun outcome after => ∃ rows, after.environment.source.store.Provides d b.owner rows ∧
        s.FlushesOver stored there rows outcome) fun _ _ => True := by
  apply Ensures.flush
  · rintro (hreadOnly | ⟨-, hclean⟩ | ⟨hunloaded, -⟩) later hlater
    · exact absurd hreadOnly (Bool.eq_false_iff.mp hwritable)
    · refine ⟨there, ?_, h.unwritten hT hstored (h.backed.clean hclean) rfl⟩
      rwa [hlater.source]
    · exact absurd h.loaded (Bool.eq_false_iff.mp hunloaded)
  · exact fun _ _ _ => trivial
  · exact fun _ => trivial
  · exact fun _ _ _ _ => trivial
  · intro _ _ hequal
    rw [h.backed.equalsSnapshot_eq h.loaded] at hequal
    exact ⟨there, hthere, h.unwritten hT hstored hequal rfl⟩
  · exact fun _ _ hflushes _ => absurd h.loaded (Bool.eq_false_iff.mp hflushes.unloaded)
  · exact fun _ _ hover => h.flush_of_handsOver hT hK hstored hthere hover

end Setting.Reattached

section Rebound

variable {s₀ : Setting T K Database} {b₀ : Option (Aggregate T K)} {owner : EntityId}
variable {b : Attachment} {old stored there : Aggregate T K}

/-- However a collection has come to be loaded: the rows of its owner agree with its snapshot, it is
moved and called without writing rows, and after that it is bound to an owner. A flush then changes
the rows of that owner by the difference from the snapshot, or leaves them alone because the
contents are those of before. The rows are the contents afterwards, up to null slots at the end, if
they agreed with the snapshot, as they do if the owner is the one of before. -/
theorem flush_after_rebinding (hmade : s₀.Made b₀)
    (hchecked : s₀.collection.descriptor.options.dirtyChecking = true)
    (hT : T.Lawful s₀.collection.descriptor.shape) (hK : K.Restores)
    (before moves : List (Move T K Database s₀.collection.descriptor.shape))
    (hloaded : (Move.runAll before s₀).collection.isLoaded = true)
    (hsnapshot : (Move.runAll before s₀).collection.snapshot = some old)
    (hstored : (Move.runAll before s₀).environment.source.store.Provides
      s₀.collection.descriptor owner stored)
    (hagrees : old.trimmed = stored.trimmed) (hmoves : ∀ move ∈ moves, move.SparesRows) :
    let s := Move.runAll moves (Move.runAll before s₀)
    s.collection.attachment = some b → s.collection.readOnly = false →
      s.environment.source.store.Provides s₀.collection.descriptor b.owner there →
        ∀ outcome, ((Action.flush Database.persister).runOn s).1 = .ok outcome →
          ∃ rows, ((Action.flush Database.persister).runOn s).2.environment.source.store.contents
              ⟨s₀.collection.role, b.owner⟩ s₀.collection.descriptor.shape = .ok rows ∧
            s.FlushesOver stored there rows outcome ∧
            (b.owner = owner → rows.trimmed = s.collection.contents.trimmed) := by
  intro s hbound hwritable hthere outcome hflush
  have hcopy (e : T.Element) : T.isDirty e (T.deepCopy e) = false := by
    rw [hT.deepCopy_eq]
    exact hT.isDirty_self e
  have hinvariant := Collection.IsBacked.invariant (T := T) (K := K) hcopy hchecked
  obtain ⟨_, hbefore⟩ := hinvariant.runAll before (hmade.isBacked hcopy hchecked)
  obtain ⟨_, hafter⟩ := hinvariant.runAll moves hbefore
  have hcarried : (Move.runAll before s₀).Carries s₀.collection.descriptor (some old)
      (Move.runAll before s₀).environment.source.store :=
    ⟨hloaded, hbefore.descriptor, hsnapshot, .refl _⟩
  have hcarries := hcarried.runAll hmoves
  obtain ⟨base, -, hbacked⟩ := hafter.backed hcarries.loaded
  -- The snapshot has not changed since the rows agreed with it, so it is a copy of the base.
  obtain rfl : base = old := by
    have hsame := hcarries.snapshot
    rw [hbacked.snapshot, Aggregate.deepCopy_eq hT.faithful] at hsame
    exact Option.some.inj hsame
  have hreattached : s.Reattached s₀.collection.descriptor b base :=
    ⟨hcarries.loaded, hafter.descriptor, hafter.sound, hbacked, hbound⟩
  obtain ⟨rows, hrows, hover⟩ :=
    (hreattached.flush hT hK hagrees hthere hwritable).ok hflush
  refine ⟨rows, hrows.contents_eq hT.toStorable hK, hover, fun howner => hover.same ?_⟩
  have hkept := (hstored.congr hcarries.rows).contents_eq hT.toStorable hK
  rw [← howner, hthere.contents_eq hT.toStorable hK] at hkept
  cases hkept
  rfl

theorem Setting.made_noting (notes : List String) : (Setting.noting notes).Made none := by
  have hrun : (EnvironmentAction.lazyCollection ⟨0⟩ 0 .checkedNotes .sequence).runOn
      (.noting notes) =
        (.ok (Setting.noting notes).collection, (Setting.noting notes).environment) := rfl
  exact .lazy ⟨0⟩ 0 _ .sequence hrun

def Move.register (session : SessionId) (owner : EntityId) : Move T K Database shape :=
  .surroundings fun env => ((EnvironmentAction.registerOwner session owner).runOn env).2

/-- A list of notes is loaded, and a second order is registered with its session. -/
def Move.opening : List (Move (.ofScalar .text) .unkeyed Database .sequence) :=
  [.ensureInitialized, .register ⟨0⟩ (.filled 1)]

/-- Detached, given a note and bound to its order again, the list is written as it is. -/
theorem flush_after_rebinding_notes :
    let s := Move.runAll
      (Move.opening ++ [.unbind, .call (.ofList (.push "urgent")), .bind ⟨0⟩ 0])
      (.noting ["fragile"])
    ((Action.flush Database.persister).runOn s).1 = .ok (.flushed 0 0 1 false) ∧
      ∃ rows, ((Action.flush Database.persister).runOn s).2.environment.source.store.contents
          ⟨⟨"Order.notes"⟩, .filled 0⟩ .sequence = .ok rows ∧
        rows.trimmed = s.collection.contents.trimmed := by
  intro s
  have hT := ElementType.lawful_text .sequence
  have hstored := Environment.provides_noting ["fragile"] Descriptor.checkedNotes.options
  have hflush : ((Action.flush Database.persister).runOn s).1 = .ok (.flushed 0 0 1 false) := rfl
  obtain ⟨rows, hrows, -, hsame⟩ := flush_after_rebinding (Setting.made_noting ["fragile"]) rfl hT
    Scalar.restores_unkeyed Move.opening
    [.unbind, .call (.ofList (.push "urgent")), .bind ⟨0⟩ 0] rfl rfl (hstored.congr ⟨rfl, rfl⟩) rfl
    (by simp [Move.SparesRows]) (b := ⟨⟨0⟩, 0, .filled 0⟩) rfl rfl (hstored.congr ⟨rfl, rfl⟩) _ hflush
  exact ⟨hflush, rows, hrows, hsame rfl⟩

/-- Bound to an order without notes, the list that was loaded for another one finds nothing to
write: it has a note, and the order has none. -/
theorem Setting.unwritten_rebound :
    let opened := Move.runAll Move.opening (.noting ["fragile"])
    let s := Move.runAll (Move.opening ++ [.unbind, .bind ⟨0⟩ 1]) (.noting ["fragile"])
    let fragile : Aggregate (.ofScalar .text) .unkeyed := .sequence [some "fragile"]
    opened.collection.snapshot = some fragile ∧
      opened.environment.source.store.contents ⟨⟨"Order.notes"⟩, .filled 0⟩ .sequence =
        .ok fragile ∧
      s.collection.attachment = some ⟨⟨0⟩, 1, .filled 1⟩ ∧ s.collection.contents = fragile ∧
      ((Action.flush Database.persister).runOn s).1 = .ok .skipped ∧
      ((Action.flush Database.persister).runOn s).2.environment.source.store.contents
        ⟨⟨"Order.notes"⟩, .filled 1⟩ .sequence =
          .ok (.sequence [] : Aggregate (.ofScalar .text) .unkeyed) :=
  ⟨rfl, rfl, rfl, rfl, rfl, rfl⟩

end Rebound

end LazyCollections
