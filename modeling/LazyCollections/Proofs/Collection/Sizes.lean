import LazyCollections.Proofs.Collection.Rebound
import LazyCollections.Proofs.Session.Sources

/-!
# Sizes of collections that are not loaded

An extra-lazy collection asks for its size and keeps the answer until it is loaded or its queue is
written. As long as rows change by its own flushes only, the answer stays the number of rows of the
owner that it was asked for. The collection also keeps it when it is bound to another owner, and
then answers with the size of the owner before.
-/

namespace LazyCollections

set_option autoImplicit false

variable {T : ElementType} {K : Scalar} {α β : Type} {shape : Shape}

namespace Store

variable {store later : Store} {d : Descriptor}

/-- Of every owner are stored what a collection of the role can have: no identity and no key
twice. -/
def Stocked (T : ElementType) (K : Scalar) (store : Store) (d : Descriptor) : Prop :=
  ∀ owner, ∃ stored : Aggregate T K, store.Provides d owner stored

theorem Stocked.congr (h : store.Stocked T K d) (hsame : store.SameRows later) :
    later.Stocked T K d := by
  intro owner
  obtain ⟨stored, hstored⟩ := h owner
  exact ⟨stored, hstored.congr hsame⟩

theorem Stocked.apply (hT : T.Faithful d.shape) (hK : K.Restores) (h : store.Stocked T K d)
    (owner : EntityId) (changes : ChangeSet T.Element K.Carrier) :
    (store.apply d owner (changes.toRowWork T K)).Stocked T K d := by
  intro other
  obtain ⟨stored, hstored⟩ := h other
  by_cases hother : other = owner
  · subst hother
    exact ⟨_, hstored.apply hT hK changes⟩
  · exact ⟨stored, hstored.apply_of_ne hother _⟩

end Store

/-- The size that the collection knows, as long as it is not loaded, is the number of rows of the
given owner. -/
structure Setting.Sized (d : Descriptor) (o : Option EntityId) (s : Setting T K Database) :
    Prop where
  onDatabase : s.environment.OnDatabase
  stocked : s.environment.source.store.Stocked T K d
  descriptor : s.collection.descriptor = d
  size : s.collection.isLoaded = false → ∀ n, s.collection.cachedSize = some n →
    ∃ owner, o = some owner ∧ n = s.environment.source.store.rowCount d owner

/-- A collection that knows no size yet would ask for that of the same owner. -/
structure Setting.SizedFor (d : Descriptor) (o : Option EntityId) (s : Setting T K Database) :
    Prop extends Setting.Sized d o s where
  unsized : s.collection.isLoaded = false → s.collection.cachedSize = none →
    o = s.collection.attachment.map Attachment.owner

namespace Setting.Sized

variable {d : Descriptor} {o : Option EntityId} {s : Setting T K Database}

theorem of_sameRows (h : s.Sized d o) {env : Environment Database} (hdatabase : env.OnDatabase)
    (hrows : s.environment.source.store.SameRows env.source.store) :
    Setting.Sized d o { s with environment := env } where
  onDatabase := hdatabase
  stocked := h.stocked.congr hrows
  descriptor := h.descriptor
  size hunloaded n hn := by
    obtain ⟨owner, howner, hcount⟩ := h.size hunloaded n hn
    exact ⟨owner, howner, hcount.trans (hrows.rowCount_eq d owner).symm⟩

theorem onEnvironment (h : s.Sized d o) {env : Environment Database}
    (henv : s.environment.SameSources env) : Setting.Sized d o { s with environment := env } :=
  h.of_sameRows (h.onDatabase.congr henv) henv.rows

theorem onCollection (h : s.Sized d o) {c : Collection T K}
    (hdescriptor : c.descriptor = s.collection.descriptor)
    (hsize : c.isLoaded = false →
      c.cachedSize = none ∨ s.collection.isLoaded = false ∧
        c.cachedSize = s.collection.cachedSize) :
    Setting.Sized d o { s with collection := c } where
  onDatabase := h.onDatabase
  stocked := h.stocked
  descriptor := hdescriptor.trans h.descriptor
  size hunloaded n hn := by
    rcases hsize hunloaded with hnone | ⟨hbefore, hsame⟩
    · rw [hnone] at hn
      cases hn
    · exact h.size hbefore n (hsame.symm.trans hn)

theorem loseSession (h : s.Sized d o) :
    Setting.Sized d o { s with collection := s.collection.loseSession } :=
  h.onCollection s.collection.descriptor_loseSession fun hunloaded =>
    .inr ⟨s.collection.isLoaded_loseSession ▸ hunloaded, s.collection.cachedSize_loseSession⟩

end Setting.Sized

namespace Setting.SizedFor

open LazyCollections.Action

variable {d : Descriptor} {o : Option EntityId} {s : Setting T K Database}

theorem onEnvironment (h : s.SizedFor d o) {env : Environment Database}
    (henv : s.environment.SameSources env) :
    Setting.SizedFor d o { s with environment := env } :=
  { h.toSized.onEnvironment henv with unsized := h.unsized }

theorem onCollection (h : s.SizedFor d o) {c : Collection T K}
    (hdescriptor : c.descriptor = s.collection.descriptor)
    (hattachment : c.attachment = s.collection.attachment)
    (hsize : c.isLoaded = false → s.collection.isLoaded = false ∧
      c.cachedSize = s.collection.cachedSize) :
    Setting.SizedFor d o { s with collection := c } :=
  { h.toSized.onCollection hdescriptor fun hunloaded => .inr (hsize hunloaded) with
    unsized := fun hunloaded hnone => by
      obtain ⟨hbefore, hsame⟩ := hsize hunloaded
      rw [hattachment]
      exact h.unsized hbefore (hsame.symm.trans hnone) }

theorem loseSession (h : s.SizedFor d o) :
    Setting.SizedFor d o { s with collection := s.collection.loseSession } :=
  h.onCollection s.collection.descriptor_loseSession s.collection.attachment_loseSession
    fun hunloaded =>
      ⟨s.collection.isLoaded_loseSession ▸ hunloaded, s.collection.cachedSize_loseSession⟩

theorem replayed (h : s.SizedFor d o) {a : Aggregate T K} {c : Collection T K}
    (hc : s.collection.replayOnto a = .ok c) :
    Setting.SizedFor d o { s with collection := c } := by
  have hloaded := Collection.isLoaded_of_replayOnto hc
  have hnot {P : Prop} (hunloaded : c.isLoaded = false) : P :=
    absurd (hloaded.symm.trans hunloaded) nofun
  exact
    { h.toSized.onCollection (Collection.descriptor_of_replayOnto hc) hnot with
      unsized := hnot }

theorem noteSize (h : s.SizedFor d o) (hnone : s.collection.cachedSize = none) {a : Attachment}
    (hattachment : s.collection.attachment = some a) {found : Option Nat}
    (hfound : ∀ n, found = some n → n = s.environment.source.store.rowCount d a.owner) :
    Setting.SizedFor d o
      { s with collection := { s.collection with cachedSize := found } } where
  onDatabase := h.onDatabase
  stocked := h.stocked
  descriptor := h.descriptor
  size hunloaded n hn := by
    refine ⟨a.owner, ?_, hfound n hn⟩
    rw [h.unsized hunloaded hnone, hattachment, Option.map_some]
  unsized hunloaded _ := h.unsized hunloaded hnone

theorem asked (h : s.SizedFor d o) {action : EnvironmentAction Database α}
    (haction : action.SparesRows) {env : Environment Database} (henv : s.environment.Notes env) :
    EnvironmentAction.Ensures env action
      (fun _ after => Setting.SizedFor d o ⟨s.collection, after⟩)
      fun _ after => Setting.SizedFor d o ⟨s.collection, after⟩ :=
  (haction env).mono (fun _ _ hafter => h.onEnvironment (henv.records.sameSources.trans hafter))
    fun _ _ hafter => h.onEnvironment (henv.records.sameSources.trans hafter)

/-- A size is noted for the owner that the collection is attached to, and only while none is
known. -/
theorem fastSize_ensures (h : s.SizedFor d o) :
    Ensures s fastSize
      (fun found s' => s'.SizedFor d o ∧ s.environment.SameSources s'.environment ∧
        ∀ n, found = some n →
          s'.collection.isLoaded = false ∧ s'.collection.cachedSize = some n)
      fun _ s' => s'.SizedFor d o := by
  apply Ensures.fastSize
  · exact ⟨h, .refl _, nofun⟩
  · exact fun hstage _ => ⟨h, .refl _, fun n hn => ⟨isLoaded_eq_false hstage, hn⟩⟩
  · exact fun _ _ => h.loseSession
  · intro session a hstage _ hnone hsession env henv
    have hattachment := (Collection.session_eq_ok hsession).1
    have hcounted := h.onEnvironment henv.records.sameSources
    have hloader := h.onDatabase.loader_eq hsession
    obtain rfl := h.descriptor
    refine (EnvironmentAction.ask_size_ensures hloader env _ a.owner).mono ?_
      fun _ _ hafter => hcounted.onEnvironment hafter
    rintro found after ⟨hafter, hfound⟩
    refine ⟨?_, henv.records.sameSources.trans hafter, fun n hn => ⟨isLoaded_eq_false hstage, hn⟩⟩
    exact (hcounted.noteSize hnone hattachment hfound).onEnvironment hafter

theorem keeps_fastSize :
    Keeps (SizedFor d o : Setting T K Database → Prop) fastSize :=
  fun _ hs => (fastSize_ensures hs).post fun _ _ h => h.1

theorem keeps_probeMembership (e : T.Element) :
    Keeps (SizedFor d o : Setting T K Database → Prop) (probeMembership e) := by
  intro s hs
  apply Ensures.probeMembership
  · exact fun _ _ => hs
  · exact hs
  · exact fun _ _ => hs.loseSession
  · exact fun _ _ => hs
  · intro session a id _ hsession _ env henv
    exact hs.asked (.ask_hasElement (hs.onDatabase.loader_eq hsession) _ id) henv

theorem keeps_probeKey (k : K.Carrier) :
    Keeps (SizedFor d o : Setting T K Database → Prop) (probeKey k) := by
  intro s hs
  apply Ensures.probeKey
  · exact fun _ _ => hs
  · exact hs
  · exact fun _ _ => hs.loseSession
  · intro session a _ hsession env henv
    refine (hs.asked (.ask_elementAt (hs.onDatabase.loader_eq hsession) _ _) henv).mono ?_
      fun _ _ hafter => hafter
    exact fun _ _ hafter => ⟨fun _ => hafter, fun _ _ => ⟨fun _ _ => hafter, fun _ _ => hafter⟩⟩

theorem keeps_enqueue (op : QueuedOp T.Element K.Carrier) :
    Keeps (SizedFor d o : Setting T K Database → Prop) (enqueue op) :=
  fun _ hs => Ensures.enqueue fun _ hlater =>
    (hs.onEnvironment hlater.sameSources).onCollection rfl rfl fun hunloaded => ⟨hunloaded, rfl⟩

theorem keeps_putContents (contents : Aggregate T K) :
    Keeps (SizedFor d o : Setting T K Database → Prop) (putContents contents) :=
  fun _ hs => Ensures.putContents fun _ hlater =>
    (hs.onEnvironment hlater.sameSources).onCollection rfl rfl fun hunloaded => ⟨hunloaded, rfl⟩

theorem keeps_ensureInitialized :
    Keeps (SizedFor d o : Setting T K Database → Prop) ensureInitialized := by
  intro s hs
  apply Ensures.ensureInitialized
  · exact fun _ => hs
  · exact fun _ _ => hs
  · exact fun _ _ => hs.loseSession
  · intro session a _ hsession
    have hloader := hs.onDatabase.loader_eq hsession
    refine (EnvironmentAction.SparesRows.loadContents hloader _ a s.environment).mono ?_ ?_
    · intro loaded env henv
      refine ⟨fun c hc later hlater => ?_, fun _ => hs.onEnvironment henv⟩
      exact (hs.onEnvironment (henv.trans hlater.sameSources)).replayed hc
    · exact fun _ _ => hs.onEnvironment

theorem of_course {s₀ : Setting T K Database} {b b' : Option (Aggregate T K)}
    (h : s₀.SizedFor d o) (hcourse : s₀.Course b s b') : s.SizedFor d o := by
  induction hcourse with
  | start => exact h
  | fastSize _ ih => exact keeps_fastSize.after ih
  | probeMembership _ e ih => exact (keeps_probeMembership e).after ih
  | probeKey _ k ih => exact (keeps_probeKey k).after ih
  | enqueue _ op _ ih => exact (keeps_enqueue op).after ih
  | put _ contents _ _ _ ih => exact (keeps_putContents contents).after ih
  | load _ _ _ _ ih => exact keeps_ensureInitialized.after ih
  | loadFailed _ _ ih => exact keeps_ensureInitialized.after ih

end Setting.SizedFor

/-- The owner that the size is of, if the collection knows one, and otherwise the owner whose size
it would ask for. -/
def Setting.sizeOwner {σ : Type} (s : Setting T K σ) (o : Option EntityId) : Option EntityId :=
  if s.collection.cachedSize.isSome then o else s.collection.attachment.map Attachment.owner

/-- The move changes rows by a flush to the database if at all, sets no size, and leaves all
sessions on the database. -/
def Move.OnlyFlushes : Move T K Database shape → Prop
  | flush persister => persister = Database.persister
  | setCachedSize _ => False
  | surroundings change => ∀ env : Environment Database, env.OnDatabase →
    (change env).OnDatabase ∧ env.source.store.SameRows (change env).source.store
  | _ => True

namespace Setting.Sized

open LazyCollections.Action

variable {d : Descriptor} {o : Option EntityId} {s : Setting T K Database}

theorem sizedFor (h : s.Sized d o) : s.SizedFor d (s.sizeOwner o) := by
  rw [sizeOwner]
  cases hsize : s.collection.cachedSize with
  | some n =>
    exact { h with
      unsized := fun _ hnone => by
        rw [hsize] at hnone
        cases hnone }
  | none =>
    exact { h with
      size := fun _ n hn => by
        rw [hsize] at hn
        cases hn
      unsized := fun _ _ => rfl }

theorem settled (h : s.Sized d o) {source : Database} (hstocked : source.store.Stocked T K d) :
    Setting.Sized d o ⟨s.collection.settled, { s.environment with source }⟩ where
  onDatabase := h.onDatabase
  stocked := hstocked
  descriptor := (Collection.descriptor_settled _).trans h.descriptor
  size hunloaded n hn := by
    rw [Collection.isLoaded, Collection.stage_settled] at hunloaded
    have hnone : s.collection.settled.cachedSize = none := by
      rw [Collection.settled_of_unloaded hunloaded]
    rw [hnone] at hn
    cases hn

theorem flush (hT : T.Faithful d.shape) (hK : K.Restores) (h : s.Sized d o) :
    ((Action.flush Database.persister).runOn s).2.Sized d o := by
  have hevicted {env : Environment Database} {c : Collection T K} (hc : Setting.Sized d o ⟨c, env⟩)
      (session : Session Database) (a : Attachment) :
      EnvironmentAction.Ensures env (.evictCache session s.collection.descriptor a)
        (fun _ after => Setting.Sized d o ⟨c, after⟩) fun _ after =>
          Setting.Sized d o ⟨c, after⟩ :=
    (EnvironmentAction.tends_evictCache.sparesRows env).mono (fun _ _ => hc.onEnvironment)
      fun _ _ => hc.onEnvironment
  apply Ensures.after (R := Setting.Sized d o)
  apply Ensures.flush
  · exact fun _ _ hlater => h.onEnvironment hlater.sameSources
  · exact fun _ _ _ => h.loseSession
  · exact fun _ => h
  · exact fun _ _ _ _ => h
  · exact fun _ _ _ => h.onCollection rfl fun hunloaded => .inr ⟨hunloaded, rfl⟩
  · exact fun session a _ _ => hevicted (h.settled h.stocked) session a
  · intro a changes hover
    apply Ensures.flush_of_handsOver hover
    · intro source haccepted session _ later hlater
      rw [h.descriptor] at haccepted
      have hstocked := h.stocked.apply hT hK a.owner changes
      rw [← Database.store_of_persister_ok hT.toStorable haccepted] at hstocked
      exact hevicted ((h.settled hstocked).onEnvironment hlater.sameSources) session a
    · intro error source hrefused
      refine h.of_sameRows h.onDatabase ?_
      rw [Database.store_of_persister_error hrefused]
      exact .refl _

theorem bind (h : s.Sized d o) (session : SessionId) (slot : Nat) :
    ((Action.bind session slot).runOn s).2.Sized d o := by
  apply Ensures.after (R := Setting.Sized d o)
  refine (bind_effect session slot).mono ?_ ?_
  · rintro _ _ ⟨-, a, -, -, -, rfl⟩
    have hrecords := (s.environment.records_hold a s.collection.role).trans
      (Environment.records_letGo _ s.collection.tie)
    refine Sized.onCollection (h.onEnvironment hrecords.sameSources) rfl fun hunloaded => ?_
    rw [Collection.isLoaded_findSession] at hunloaded
    exact .inr ⟨hunloaded, rfl⟩
  · rintro _ _ ⟨rfl, -⟩
    exact h

theorem unbind (h : s.Sized d o) : (Action.unbind.runOn s).2.Sized d o := by
  apply Ensures.after (R := Setting.Sized d o)
  refine unbind_effect.post ?_
  rintro _ _ rfl
  have hrecords := s.environment.records_letGo s.collection.tie
  have hlost := h.loseSession.onEnvironment hrecords.sameSources
  exact hlost.onCollection rfl fun hunloaded => .inr ⟨hunloaded, rfl⟩

end Setting.Sized

namespace Setting.SizedFor

open LazyCollections.Action

variable {d : Descriptor} {o : Option EntityId} {s : Setting T K Database}

theorem after (hT : T.Faithful d.shape) (hK : K.Restores) (h : s.SizedFor d o)
    {move : Move T K Database shape} (hmove : move.OnlyFlushes) : (move.after s).Sized d o := by
  cases move with
  | call call =>
    obtain ⟨b, hcourse⟩ := Course.reaches_call (s := s) none call
    exact (h.of_course hcourse).toSized
  | ensureInitialized => exact (keeps_ensureInitialized.after h).toSized
  | disassemble =>
    obtain ⟨b, hcourse⟩ := Course.reaches_disassemble (s := s) none
    exact (h.of_course hcourse).toSized
  | assemble entry =>
    apply Ensures.after (R := Setting.Sized d o)
    refine Ensures.collection_bind ?_
    split
    next =>
      refine Ensures.ofExcept_cases (fun a _ => ?_) fun _ _ => h.toSized
      refine Ensures.ofExcept_cases (fun c hc => ?_) fun _ _ => h.toSized
      exact Ensures.of_modifyCollection (h.replayed hc).toSized
    next => exact Ensures.throw h.toSized
    next => exact Ensures.throw h.toSized
  | flush persister =>
    obtain rfl : persister = Database.persister := hmove
    exact h.toSized.flush hT hK
  | bind session slot => exact h.toSized.bind session slot
  | unbind => exact h.toSized.unbind
  | setReadOnly readOnly =>
    refine h.toSized.onCollection rfl fun hunloaded => .inr ⟨?_, rfl⟩
    rwa [Collection.isLoaded_setReadOnly] at hunloaded
  | setCachedSize size => exact hmove.elim
  | surroundings change =>
    obtain ⟨hdatabase, hrows⟩ := hmove s.environment h.onDatabase
    exact h.toSized.of_sameRows hdatabase hrows

end Setting.SizedFor

namespace Move

/-- The owner that the size is of after a run. As long as the collection knows no size it is the
owner that the collection is attached to. -/
def sizeOwner {σ : Type} :
    List (Move T K σ shape) → Setting T K σ → Option EntityId → Option EntityId
  | [], s, o => s.sizeOwner o
  | move :: moves, s, o => sizeOwner moves (move.after s) (s.sizeOwner o)

theorem sizedFor_runAll {d : Descriptor} (hT : T.Faithful d.shape) (hK : K.Restores)
    {moves : List (Move T K Database shape)} (hmoves : ∀ move ∈ moves, move.OnlyFlushes)
    {o : Option EntityId} {s : Setting T K Database} (h : s.Sized d o) :
    (runAll moves s).SizedFor d (sizeOwner moves s o) := by
  induction moves generalizing s o with
  | nil => exact h.sizedFor
  | cons move moves ih =>
    exact ih (fun later hlater => hmoves later (List.mem_cons_of_mem _ hlater))
      (h.sizedFor.after hT hK (hmoves move List.mem_cons_self))

end Move

/-- The call asks for the size, and this is how it tells it. -/
inductive ShapedCall.AsksSize :
    {shape : Shape} → ShapedCall T K shape → (Nat → Answer T K) → Prop
  | listSize : AsksSize (.ofList .size) .count
  | setSize : AsksSize (.ofSet .size) .count
  | mapSize : AsksSize (.ofMap .size) .count
  | listIsEmpty : AsksSize (.ofList .isEmpty) fun n => .flag (n = 0)
  | setIsEmpty : AsksSize (.ofSet .isEmpty) fun n => .flag (n = 0)
  | mapIsEmpty : AsksSize (.ofMap .isEmpty) fun n => .flag (n = 0)

theorem ShapedCall.AsksSize.run_eq {σ : Type} {call : ShapedCall T K shape}
    {tell : Nat → Answer T K} (h : call.AsksSize tell) :
    (call.run : Action T K σ (Answer T K)) = do return tell (← Action.size) := by
  cases h with
  | listSize | setSize | mapSize => rfl
  | listIsEmpty | setIsEmpty | mapIsEmpty => exact bind_assoc _ _ _

namespace Setting.SizedFor

open LazyCollections.Action

variable {d : Descriptor} {o : Option EntityId} {s : Setting T K Database}

theorem size_ensures (h : s.SizedFor d o) :
    Ensures s Action.size
      (fun n s' => s'.collection.isLoaded = false →
        ∃ owner, o = some owner ∧ n = s.environment.source.store.rowCount d owner)
      fun _ _ => True := by
  refine ((fastSize_ensures h).failing fun _ _ _ => trivial).bind ?_
  rintro found after ⟨hafter, hsame, hfound⟩
  cases found with
  | some n =>
    refine Ensures.pure fun _ => ?_
    obtain ⟨hunloaded, hn⟩ := hfound n rfl
    obtain ⟨owner, howner, hcount⟩ := hafter.size hunloaded n hn
    exact ⟨owner, howner, hcount.trans (hsame.rows.rowCount_eq d owner)⟩
  | none =>
    refine Ensures.bind (Q := fun _ later => later.collection.isLoaded = true) ?_ ?_
    · apply Ensures.loadedContents
      refine ensureInitialized_effect.mono ?_ fun _ _ _ => trivial
      rintro _ later (⟨hloaded, rfl⟩ | ⟨-, a, -, hreplay⟩)
      · exact hloaded
      · exact Collection.isLoaded_of_replayOnto hreplay
    · intro contents later hloaded
      refine Ensures.pure fun hunloaded => ?_
      rw [hloaded] at hunloaded
      cases hunloaded

theorem asksSize_ensures (h : s.SizedFor d o) {call : ShapedCall T K shape}
    {tell : Nat → Answer T K} (hcall : call.AsksSize tell) :
    Ensures s call.run
      (fun answer s' => s'.collection.isLoaded = false →
        ∃ owner, o = some owner ∧ answer = tell (s.environment.source.store.rowCount d owner))
      fun _ _ => True := by
  rw [hcall.run_eq]
  refine h.size_ensures.bind fun n _ hn => Ensures.pure fun hunloaded => ?_
  obtain ⟨owner, howner, hcount⟩ := hn hunloaded
  exact ⟨owner, howner, congrArg tell hcount⟩

end Setting.SizedFor

theorem Setting.Made.sized {s : Setting T K Database} {b : Option (Aggregate T K)} (h : s.Made b)
    (hdatabase : s.environment.OnDatabase)
    (hstocked : s.environment.source.store.Stocked T K s.collection.descriptor) :
    s.Sized s.collection.descriptor none where
  onDatabase := hdatabase
  stocked := hstocked
  descriptor := rfl
  size _ n hn := by
    have hnone : s.collection.cachedSize = none := by
      rcases h.eq with ⟨-, d, a, readOnly, hc⟩ | ⟨d, a, contents, -, -, -, hc⟩
      · rw [hc]
        rfl
      · rw [hc]
        rfl
    rw [hnone] at hn
    cases hn

/-- However a collection has come to be asked for its size, and without being loaded for it: it
tells how many rows one owner has now. That is the owner that it was attached to when the size came
to be known. A load would tell how many rows the owner has that it is attached to now. -/
theorem size_of_unloaded {s₀ : Setting T K Database} {b₀ : Option (Aggregate T K)} {b : Attachment}
    (hmade : s₀.Made b₀) (hT : T.Faithful s₀.collection.descriptor.shape) (hK : K.Restores)
    (hdatabase : s₀.environment.OnDatabase)
    (hstocked : s₀.environment.source.store.Stocked T K s₀.collection.descriptor)
    (moves : List (Move T K Database s₀.collection.descriptor.shape))
    (hmoves : ∀ move ∈ moves, move.OnlyFlushes) :
    let s := Move.runAll moves s₀
    let d := s₀.collection.descriptor
    s.collection.attachment = some b →
      ∃ full : Aggregate T K,
        s.environment.source.store.contents ⟨d.role, b.owner⟩ d.shape = .ok full ∧
        full.size = s.environment.source.store.rowCount d b.owner ∧
        ∀ (call : ShapedCall T K d.shape) (tell : Nat → Answer T K), call.AsksSize tell →
          ∀ answer, (call.run.runOn s).1 = .ok answer →
            (call.run.runOn s).2.collection.isLoaded = false →
              ∃ owner, Move.sizeOwner moves s₀ none = some owner ∧
                answer = tell (s.environment.source.store.rowCount d owner) ∧
                  (owner = b.owner → answer = tell full.size) := by
  intro s d hbound
  have hsized : s.SizedFor d (Move.sizeOwner moves s₀ none) :=
    Move.sizedFor_runAll hT hK hmoves (hmade.sized hdatabase hstocked)
  obtain ⟨full, hfull⟩ := hsized.stocked b.owner
  refine ⟨full, hfull.contents_eq hT.toStorable hK, hfull.size_eq, ?_⟩
  intro call tell hcall answer hanswer hunloaded
  obtain ⟨owner, howner, hcount⟩ := (hsized.asksSize_ensures hcall).ok hanswer hunloaded
  refine ⟨owner, howner, hcount, ?_⟩
  rintro rfl
  rw [hcount, hfull.size_eq]

theorem Setting.onDatabase_noting (notes : List String) :
    (Setting.noting notes).environment.OnDatabase := by
  intro session hsession
  obtain rfl := List.mem_singleton.mp hsession
  rfl

theorem Environment.stocked_noting (notes : List String) :
    (Environment.noting notes).source.store.Stocked (.ofScalar .text) .unkeyed .checkedNotes := by
  intro owner
  have hstored := Environment.provides_noting notes Descriptor.checkedNotes.options
  by_cases howner : owner = .filled 0
  · subst howner
    exact ⟨_, hstored⟩
  · have hother : (Environment.noting notes).source.store.rows? ⟨⟨"Order.notes"⟩, owner⟩ = none :=
      SortedMap.get?_insert_of_ne _ _ fun hkey => howner (congrArg CollectionKey.owner hkey).symm
    exact ⟨.empty .sequence,
      { keeps := Store.keeps_empty hother
        identifies := hstored.identifies
        shape_eq := rfl
        keyedById := trivial }⟩

/-- A list of notes is asked for its size, and a second order is registered with its session. Then
it is detached and bound to one of the two. -/
def Move.sizing (slot : Nat) : List (Move (.ofScalar .text) .unkeyed Database .sequence) :=
  [.call (.ofList .size), .register ⟨0⟩ (.filled 1), .unbind, .bind ⟨0⟩ slot]

theorem Move.onlyFlushes_register (session : SessionId) (owner : EntityId) :
    (Move.register session owner : Move T K Database shape).OnlyFlushes := by
  intro env hdatabase
  have hrecords := (EnvironmentAction.onlyRecords_registerOwner session owner env).after
  exact ⟨hdatabase.congr hrecords.sameSources, hrecords.sameSources.rows⟩

theorem Move.onlyFlushes_sizing (slot : Nat) : ∀ move ∈ Move.sizing slot, move.OnlyFlushes := by
  simp only [Move.sizing, List.forall_mem_cons]
  exact ⟨trivial, Move.onlyFlushes_register _ _, trivial, trivial, nofun⟩

theorem size_of_unloaded_notes :
    let s := Move.runAll (Move.sizing 0) (.noting ["fragile", "urgent"])
    ((ListCall.size.run : Action _ .unkeyed _ _).runOn s).1 = .ok (.count 2) ∧
      ∃ full : Aggregate (.ofScalar .text) .unkeyed,
        s.environment.source.store.contents ⟨⟨"Order.notes"⟩, .filled 0⟩ .sequence = .ok full ∧
          full.size = 2 := by
  intro s
  have hanswer : ((ListCall.size.run : Action _ .unkeyed _ _).runOn s).1 = .ok (.count 2) := rfl
  obtain ⟨full, hfull, -, hsize⟩ := size_of_unloaded
    (Setting.made_noting ["fragile", "urgent"]) (ElementType.lawful_text .sequence).faithful
    Scalar.restores_unkeyed (Setting.onDatabase_noting _) (Environment.stocked_noting _)
    (Move.sizing 0) (Move.onlyFlushes_sizing 0) (b := ⟨⟨0⟩, 0, .filled 0⟩) rfl
  obtain ⟨owner, howner, -, hcount⟩ := hsize (.ofList .size) .count .listSize _ hanswer rfl
  have hsame : owner = .filled 0 := (Option.some.inj howner).symm
  exact ⟨hanswer, full, hfull, (Answer.count.inj (hcount hsame)).symm⟩

/-- Bound to an order without notes, the list still tells the size of the one that it was detached
from. -/
theorem Setting.oversized_rebound :
    let s := Move.runAll (Move.sizing 1) (.noting ["fragile", "urgent"])
    s.collection.attachment = some ⟨⟨0⟩, 1, .filled 1⟩ ∧
      ((ListCall.size.run : Action _ .unkeyed _ _).runOn s).1 = .ok (.count 2) ∧
      ((ListCall.size.run : Action _ .unkeyed _ _).runOn s).2.collection.isLoaded = false ∧
      s.environment.source.store.contents ⟨⟨"Order.notes"⟩, .filled 1⟩ .sequence =
        .ok (.sequence [] : Aggregate (.ofScalar .text) .unkeyed) :=
  ⟨rfl, rfl, rfl, rfl⟩

end LazyCollections
