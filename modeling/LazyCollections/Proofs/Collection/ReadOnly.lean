import LazyCollections.Proofs.Collection.Atomic

/-!
# Collections that are read-only

While a collection is read-only every call that would change it is refused before it does anything,
and a flush finds nothing to write. The collection may still be loaded and moved between sessions,
so it keeps what was pending: the queue until it is loaded, and then what the queue made of the
loaded contents. Once the collection is open to changes again it is what it would have been.
-/

namespace LazyCollections

set_option autoImplicit false

variable {T : ElementType} {K : Scalar} {σ α β : Type} {shape : Shape}

/-- Whether the call is meant to change the list. Appending no elements is not. -/
def ListCall.changes : ListCall T → Bool
  | push _ | insert _ _ | set _ _ | setNull _ | removeAt _ | remove _ | clear | retain _
  | removeAll _ => true
  | extend es => !es.isEmpty
  | size | isEmpty | get _ | contains _ | indexOf _ | elements | slots => false

def SetCall.changes : SetCall T → Bool
  | insert _ | remove _ | clear | retain _ => true
  | size | isEmpty | get _ | contains _ | elements => false

def MapCall.changes : MapCall T K → Bool
  | insert _ _ | remove _ | clear => true
  | size | isEmpty | get _ | containsKey _ | entries | keys | values => false

def ShapedCall.changes : ShapedCall T K shape → Bool
  | ofList call => call.changes
  | ofSet call => call.changes
  | ofMap call => call.changes

namespace Action

/-- The action fails because the collection is read-only, and leaves everything as it is. -/
def Refused (s : Setting T K σ) (action : Action T K σ α) : Prop :=
  action.runOn s = (.error (.invalidOperation (.readOnly s.collection.role)), s)

section Refusals

variable {s : Setting T K σ} {action : Action T K σ α}

theorem Refused.bind (h : Refused s action) (next : α → Action T K σ β) :
    Refused s (action >>= next) := by
  rw [Refused] at h ⊢
  rw [runOn_bind, h]

variable (hs : s.collection.readOnly = true)
include hs

theorem refused_check (next : Unit → Action T K σ α) :
    Refused s (do
      let c ← collection
      (liftM c.checkWritable : Action T K σ Unit) >>= next) := by
  have hcheck : s.collection.checkWritable =
      .error (.invalidOperation (.readOnly s.collection.role)) := if_pos hs
  rw [Refused, runOn_bind, runOn_collection]
  simp only [runOn_bind, runOn_ofExcept, hcheck]

theorem refused_writableContents : Refused s (writableContents (T := T) (K := K)) :=
  refused_check hs _

theorem refused_writableSlots : Refused s (LazyList.writableSlots (T := T) (K := K)) :=
  (refused_writableContents hs).bind _

theorem refused_setItems : Refused s (LazySet.writableItems (T := T) (K := K)) :=
  (refused_writableContents hs).bind _

theorem refused_listCall {call : ListCall T} (hcall : call.changes = true) :
    Refused s (call.run : Action T K σ (Answer T K)) := by
  cases call with
  | size | isEmpty | get i | contains e | indexOf e | elements | slots => cases hcall
  | push e => exact (refused_check hs _).bind _
  | extend es =>
    cases es with
    | nil => cases hcall
    | cons e es => exact (Refused.bind (refused_check hs _) _).bind _
  | insert i e => exact (Refused.bind (refused_writableSlots hs) _).bind _
  | set i e => exact (Refused.bind (refused_writableSlots hs) _).bind _
  | setNull i => exact (Refused.bind (refused_writableSlots hs) _).bind _
  | removeAt i => exact (Refused.bind (refused_writableSlots hs) _).bind _
  | remove e => exact (refused_check hs _).bind _
  | clear => exact (refused_check hs _).bind _
  | retain keep => exact (Refused.bind (Refused.bind (refused_writableSlots hs) _) _).bind _
  | removeAll es => exact (Refused.bind (refused_writableSlots hs) _).bind _

theorem refused_setCall {call : SetCall T} (hcall : call.changes = true) :
    Refused s (call.run : Action T K σ (Answer T K)) := by
  cases call with
  | size | isEmpty | get id | contains e | elements => cases hcall
  | insert e => exact (refused_check hs _).bind _
  | remove e => exact (refused_check hs _).bind _
  | clear => exact (refused_check hs _).bind _
  | retain keep => exact (Refused.bind (refused_setItems hs) _).bind _

theorem refused_mapCall {call : MapCall T K} (hcall : call.changes = true) :
    Refused s (call.run : Action T K σ (Answer T K)) := by
  cases call with
  | size | isEmpty | get k | containsKey k | entries | keys | values => cases hcall
  | insert k e => exact (refused_check hs _).bind _
  | remove k => exact (refused_check hs _).bind _
  | clear => exact (refused_check hs _).bind _

theorem refused_call {call : ShapedCall T K shape} (hcall : call.changes = true) :
    Refused s (call.run : Action T K σ (Answer T K)) := by
  cases call with
  | ofList call => exact refused_listCall hs hcall
  | ofSet call => exact refused_setCall hs hcall
  | ofMap call => exact refused_mapCall hs hcall

theorem flush_skips (persister : Persister T K σ) :
    (flush persister).runOn s = (.ok .skipped, s) := by
  rw [flush, runOn_bind, runOn_collection]
  simp only [hs, if_true]
  rfl

end Refusals

section Looking

variable {s₀ : Setting T K σ}

theorem consults_listCall {call : ListCall T} (hcall : call.changes = false) :
    Keeps s₀.Consults (call.run : Action T K σ (Answer T K)) := by
  have h := Setting.Consults.upholdsList s₀
  cases call with
  | size => exact h.size.map _
  | isEmpty => exact h.isEmpty.map _
  | get i => exact (h.get i).map _
  | contains e => exact (h.contains e).map _
  | indexOf e => exact (h.indexOf e).map _
  | elements => exact h.elements.map _
  | slots => exact h.keeps_slots.map _
  | extend es =>
    cases es with
    | nil => exact (Keeps.pure ()).map _
    | cons e es => cases hcall
  | push e | insert i e | set i e | setNull i | removeAt i | remove e | clear | retain keep
  | removeAll es => cases hcall

theorem consults_setCall {call : SetCall T} (hcall : call.changes = false) :
    Keeps s₀.Consults (call.run : Action T K σ (Answer T K)) := by
  have h := Setting.Consults.upholdsSet s₀
  cases call with
  | size => exact h.size.map _
  | isEmpty => exact h.isEmpty.map _
  | get id => exact (h.get id).map _
  | contains e => exact (h.contains e).map _
  | elements => exact h.elements.map _
  | insert e | remove e | clear | retain keep => cases hcall

theorem consults_mapCall {call : MapCall T K} (hcall : call.changes = false) :
    Keeps s₀.Consults (call.run : Action T K σ (Answer T K)) := by
  have h := Setting.Consults.upholdsMap s₀
  cases call with
  | size => exact h.size.map _
  | isEmpty => exact h.isEmpty.map _
  | get k => exact (h.get k).map _
  | containsKey k => exact (h.containsKey k).map _
  | entries => exact h.entries.map _
  | keys => exact h.keys.map _
  | values => exact h.values.map _
  | insert k e | remove k | clear => cases hcall

theorem consults_call {call : ShapedCall T K shape} (hcall : call.changes = false) :
    Keeps s₀.Consults (call.run : Action T K σ (Answer T K)) := by
  cases call with
  | ofList call => exact consults_listCall hcall
  | ofSet call => exact consults_setCall hcall
  | ofMap call => exact consults_mapCall hcall

end Looking

end Action

theorem Collection.setReadOnly_setReadOnly (c : Collection T K) (before after : Bool) :
    (c.setReadOnly before).setReadOnly after = c.setReadOnly after := by
  unfold setReadOnly
  cases c.stage <;> cases before <;> cases after <;> rfl

theorem Collection.isLoaded_loadedWith (c : Collection T K) (loaded contents : Aggregate T K) :
    (c.loadedWith loaded contents).isLoaded = true := by
  unfold isLoaded loadedWith
  cases c.readOnly <;> rfl

/-- What a collection may become while nothing is changed, written or queued: it may be moved
between sessions and note its size, and it may be loaded, with its queue carried out on what was
loaded. -/
inductive Collection.Rests (c : Collection T K) : Collection T K → Prop
  | unloaded (a : Option Attachment) (stage : Stage) (size : Option Nat)
    (unloaded : c.isLoaded = false) (stays : stage.isLoaded = false) :
    c.Rests { c with attachment := a, stage, cachedSize := size }
  | initialized (loaded contents : Aggregate T K) (a : Option Attachment)
    (unloaded : c.isLoaded = false) (replayed : replay c.queue loaded = .ok contents) :
    c.Rests { c.loadedWith loaded contents with attachment := a }
  | loaded (a : Option Attachment) (loaded : c.isLoaded = true) :
    c.Rests { c with attachment := a }

namespace Collection.Rests

variable {c c' c'' : Collection T K}

theorem refl (c : Collection T K) : c.Rests c := by
  cases hloaded : c.isLoaded with
  | true => exact .loaded c.attachment hloaded
  | false => exact .unloaded c.attachment c.stage c.cachedSize hloaded hloaded

theorem of_replayOnto {a : Aggregate T K} (hunloaded : c.isLoaded = false)
    (h : c.replayOnto a = .ok c') : c.Rests c' := by
  rw [replayOnto_eq] at h
  cases hreplay : replay c.queue a with
  | error error =>
    rw [hreplay] at h
    cases h
  | ok contents =>
    rw [hreplay] at h
    cases h
    exact .initialized a contents c.attachment hunloaded hreplay

theorem eq_of_loaded (h : c.Rests c') (hloaded : c.isLoaded = true) :
    c' = { c with attachment := c'.attachment } := by
  cases h with
  | unloaded _ _ _ hunloaded | initialized _ _ _ hunloaded _ => cases hunloaded.symm.trans hloaded
  | loaded a _ => rfl

theorem trans (h : c.Rests c') (hnext : c'.Rests c'') : c.Rests c'' := by
  cases h with
  | unloaded a stage size hunloaded hstage =>
    cases hnext with
    | unloaded b last n _ hlast => exact .unloaded b last n hunloaded hlast
    | initialized loaded contents b _ hreplay =>
      exact .initialized loaded contents b hunloaded hreplay
    | loaded b hloaded => cases hstage.symm.trans hloaded
  | initialized loaded contents a hunloaded hreplay =>
    rw [hnext.eq_of_loaded (c.isLoaded_loadedWith loaded contents)]
    exact .initialized loaded contents _ hunloaded hreplay
  | loaded a hloaded =>
    rw [hnext.eq_of_loaded hloaded]
    exact .loaded _ hloaded

theorem readOnly_eq (h : c.Rests c') : c'.readOnly = c.readOnly := by
  cases h with
  | unloaded | loaded | initialized => rfl

/-- Nothing is queued, and a queue is given up only to be carried out. -/
theorem queue_eq (h : c.Rests c') :
    c'.queue = c.queue ∨ c'.isLoaded = true ∧ c'.queue = [] := by
  cases h with
  | unloaded | loaded => exact .inl rfl
  | initialized loaded contents => exact .inr ⟨c.isLoaded_loadedWith loaded contents, rfl⟩

theorem loseSession (c : Collection T K) : c.Rests c.loseSession := by
  unfold Collection.loseSession
  split
  next hstage =>
    exact .unloaded c.attachment .unbound c.cachedSize (by rw [isLoaded, hstage]; rfl) rfl
  next => exact refl c

theorem findSession (c : Collection T K) (a : Attachment) : c.Rests (c.findSession a) := by
  cases hloaded : c.isLoaded with
  | true =>
    have hstage : c.stage ≠ .unbound := fun hstage => by
      rw [isLoaded, hstage] at hloaded
      cases hloaded
    rw [Collection.findSession, if_neg hstage]
    exact .loaded (some a) hloaded
  | false =>
    refine .unloaded (some a) _ c.cachedSize hloaded ?_
    have hfound := c.isLoaded_findSession a
    rwa [hloaded] at hfound

theorem detach (c : Collection T K) : c.Rests { c.loseSession with attachment := none } := by
  refine (loseSession c).trans ?_
  cases hloaded : c.loseSession.isLoaded with
  | true => exact .loaded none hloaded
  | false => exact .unloaded none _ _ hloaded hloaded

theorem noteSize (hunloaded : c.isLoaded = false) (size : Option Nat) :
    c.Rests { c with cachedSize := size } :=
  .unloaded c.attachment c.stage size hunloaded hunloaded

/-- Opening and closing a collection to changes leaves pending what was pending. -/
theorem setReadOnly (h : c.Rests c') (readOnly : Bool) :
    (c.setReadOnly readOnly).Rests (c'.setReadOnly readOnly) := by
  have hloaded := c.isLoaded_setReadOnly readOnly
  cases h with
  | unloaded a stage size hunloaded hstage =>
    rw [setReadOnly_of_unloaded hunloaded] at hloaded ⊢
    rw [setReadOnly_of_unloaded (c := { c with attachment := a, stage, cachedSize := size }) hstage]
    exact .unloaded a stage size (hloaded.trans hunloaded) hstage
  | initialized loaded contents a hunloaded hreplay =>
    rw [setReadOnly_of_unloaded hunloaded] at hloaded ⊢
    have hafter : ({ c.loadedWith loaded contents with attachment := a } : Collection T K).isLoaded
      = true := c.isLoaded_loadedWith loaded contents
    rw [setReadOnly_of_loaded hafter]
    exact .initialized loaded contents a (hloaded.trans hunloaded) hreplay
  | loaded a hbefore =>
    rw [hbefore] at hloaded
    exact .loaded a hloaded

end Collection.Rests

/-- A collection that is read-only, also by its stage if it is loaded. -/
structure Collection.Closed (c : Collection T K) : Prop where
  readOnly : c.readOnly = true
  stage : c.isLoaded = true → c.stage = .readOnlyInitialized

namespace Collection.Closed

variable {c c' : Collection T K}

theorem setReadOnly (c : Collection T K) : (c.setReadOnly true).Closed where
  readOnly := rfl
  stage hloaded := by
    rw [isLoaded_setReadOnly] at hloaded
    rw [setReadOnly_of_loaded hloaded]
    rfl

theorem rests (h : c.Closed) (hrests : c.Rests c') : c'.Closed where
  readOnly := hrests.readOnly_eq.trans h.readOnly
  stage hloaded := by
    cases hrests with
    | unloaded a stage size _ hstays =>
      rw [isLoaded, hstays] at hloaded
      cases hloaded
    | initialized => exact if_pos h.readOnly
    | loaded a hbefore => exact h.stage hbefore

theorem setReadOnly_eq (h : c.Closed) : c.setReadOnly true = c := by
  cases hloaded : c.isLoaded with
  | true =>
    rw [setReadOnly_of_loaded hloaded, if_pos rfl, ← h.stage hloaded, ← h.readOnly]
  | false => rw [setReadOnly_of_unloaded hloaded, ← h.readOnly]

end Collection.Closed

theorem Setting.ProbeChange.rests {s : Setting T K σ} {c : Collection T K} (h : s.ProbeChange c) :
    s.collection.Rests c := by
  cases h with
  | same => exact .refl _
  | noteSize size hstage => exact .noteSize (Action.isLoaded_eq_false hstage) size
  | loseSession => exact .loseSession _

theorem Setting.Consults.rests {s s' : Setting T K σ} (h : s.Consults s') :
    s.collection.Rests s'.collection := by
  induction h with
  | start => exact .refl _
  | fastSize _ ih => exact ih.trans Action.onlyProbes_fastSize.change.rests
  | probeMembership _ e ih => exact ih.trans (Action.onlyProbes_probeMembership e).change.rests
  | probeKey _ k ih => exact ih.trans (Action.onlyProbes_probeKey k).change.rests
  | @load s₁ _ ih =>
    have heffect : Action.Ensures s₁ Action.ensureInitialized
        (fun _ s' => s₁.collection.Rests s'.collection)
        fun _ s' => s₁.collection.Rests s'.collection := by
      refine Action.ensureInitialized_effect.mono ?_ fun _ _ hchange => hchange.rests
      rintro _ _ (⟨-, rfl⟩ | ⟨hstage, a, -, hreplay⟩)
      · exact .refl _
      · exact .of_replayOnto (Action.isLoaded_eq_false hstage) hreplay
    exact ih.trans heffect.after

namespace Move

variable {s : Setting T K σ} {move : Move T K σ shape}

theorem rests_after (h : s.collection.Closed) (hmove : move ≠ .setReadOnly false) :
    s.collection.Rests (move.after s).collection := by
  cases move with
  | call call =>
    cases hcall : call.changes with
    | true => rw [after, Action.refused_call h.readOnly hcall]; exact .refl _
    | false => exact ((Action.consults_call hcall).after .start).rests
  | ensureInitialized => exact Setting.Consults.rests (.load .start)
  | assemble entry =>
    refine Action.Ensures.after (R := fun s' => s.collection.Rests s'.collection)
      ((Action.assemble_effect entry).mono ?_ ?_)
    · rintro _ _ ⟨hstage, a, -, hreplay⟩
      exact .of_replayOnto (Action.isLoaded_eq_false hstage) hreplay
    · rintro _ _ rfl
      exact .refl _
  | disassemble =>
    exact ((Setting.Consults.keeps_disassemble s).after .start).rests
  | flush persister =>
    rw [after, Action.flush_skips h.readOnly]
    exact .refl _
  | bind session slot =>
    refine Action.Ensures.after (R := fun s' => s.collection.Rests s'.collection)
      ((Action.bind_effect session slot).mono ?_ ?_)
    · rintro _ _ ⟨-, a, -, -, -, rfl⟩
      exact .findSession _ a
    · rintro _ _ ⟨rfl, -⟩
      exact .refl _
  | unbind =>
    refine Action.Ensures.after (R := fun s' => s.collection.Rests s'.collection)
      (Action.unbind_effect.post ?_)
    rintro _ _ rfl
    exact .detach _
  | setReadOnly readOnly =>
    cases readOnly with
    | true => exact h.setReadOnly_eq.symm ▸ .refl _
    | false => exact absurd rfl hmove
  | setCachedSize size =>
    rw [after, Collection.setCachedSize]
    split
    next => exact .refl _
    next hunloaded => exact .noteSize (Bool.eq_false_iff.mpr hunloaded) (some size)
  | surroundings change => exact .refl _

theorem runAll_rests {moves : List (Move T K σ shape)} (h : s.collection.Closed)
    (hmoves : ∀ move ∈ moves, move ≠ .setReadOnly false) :
    s.collection.Rests (runAll moves s).collection := by
  induction moves generalizing s with
  | nil => exact .refl _
  | cons move moves ih =>
    have hafter := rests_after h (hmoves move List.mem_cons_self)
    exact hafter.trans (ih (h.rests hafter) fun next hnext =>
      hmoves next (List.mem_cons_of_mem move hnext))

end Move

/-- From the moment a collection becomes read-only until it is opened again, whatever is done with
it and around it: changes are refused and flushes skipped, before anything is done, and nothing is
queued. What is loaded stays as it was loaded, and opening the collection brings back what was
pending before. -/
theorem Setting.rests_while_readOnly (s : Setting T K σ) {earlier later : List (Move T K σ shape)}
    (hearlier : ∀ move ∈ earlier, move ≠ .setReadOnly false)
    (hlater : ∀ move ∈ later, move ≠ .setReadOnly false) :
    let held := Move.runAll earlier { s with collection := s.collection.setReadOnly true }
    let last := Move.runAll later held
    (∀ call : ShapedCall T K shape, call.changes = true →
        call.run.runOn held =
          (.error (.invalidOperation (.readOnly held.collection.role)), held)) ∧
      (∀ persister : Persister T K σ,
        (Action.flush persister).runOn held = (.ok .skipped, held)) ∧
      (last.collection.queue = held.collection.queue ∨
        last.collection.isLoaded = true ∧ last.collection.queue = []) ∧
      (held.collection.isLoaded = true →
        last.collection = { held.collection with attachment := last.collection.attachment }) ∧
      (s.collection.setReadOnly false).Rests (last.collection.setReadOnly false) := by
  intro held last
  have hclosed : (s.collection.setReadOnly true).Closed := .setReadOnly _
  have hheld : (s.collection.setReadOnly true).Rests held.collection :=
    Move.runAll_rests (s := { s with collection := s.collection.setReadOnly true }) hclosed hearlier
  have hlast : held.collection.Rests last.collection :=
    Move.runAll_rests (hclosed.rests hheld) hlater
  have hreadOnly := (hclosed.rests hheld).readOnly
  have hopened := (hheld.trans hlast).setReadOnly false
  rw [Collection.setReadOnly_setReadOnly] at hopened
  exact ⟨fun call => Action.refused_call hreadOnly, Action.flush_skips hreadOnly, hlast.queue_eq,
    hlast.eq_of_loaded, hopened⟩

/-- A note is queued, then the list becomes read-only and is loaded and detached. -/
theorem Setting.rests_while_readOnly_notes :
    let noted : List (Move (.ofScalar .text) .unkeyed Unit .sequence) :=
      [.call (.ofList (.push "urgent"))]
    let s := Move.runAll noted (Setting.handed ["fragile"])
    let earlier : List (Move (.ofScalar .text) .unkeyed Unit .sequence) :=
      [.call (.ofList (.push "late")), .ensureInitialized]
    let later : List (Move (.ofScalar .text) .unkeyed Unit .sequence) :=
      [.call (.ofList .clear), .unbind]
    let held := Move.runAll earlier { s with collection := s.collection.setReadOnly true }
    let last := Move.runAll later held
    (∀ move ∈ earlier, move ≠ .setReadOnly false) ∧ (∀ move ∈ later, move ≠ .setReadOnly false) ∧
      held.collection.isLoaded = true ∧
      last.collection = { held.collection with attachment := last.collection.attachment } ∧
      (s.collection.setReadOnly false).Rests (last.collection.setReadOnly false) ∧
      last.collection.contents = .sequence [some "fragile", some "urgent"] ∧
      last.collection.dirty = true := by
  intro noted s earlier later held last
  have hearlier : ∀ move ∈ earlier, move ≠ .setReadOnly false := by simp [earlier]
  have hlater : ∀ move ∈ later, move ≠ .setReadOnly false := by simp [later]
  obtain ⟨-, -, -, hloaded, hrests⟩ := s.rests_while_readOnly hearlier hlater
  exact ⟨hearlier, hlater, rfl, hloaded rfl, hrests, rfl, rfl⟩

end LazyCollections
