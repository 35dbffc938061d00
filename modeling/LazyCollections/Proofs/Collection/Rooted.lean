import LazyCollections.Proofs.Collection.Asking
import LazyCollections.Proofs.Collection.Growth
import LazyCollections.Proofs.Collection.Upholding
import LazyCollections.Proofs.Refinement.Probing

/-!
# Collections that stay rooted in what is stored

Whatever is called on a collection of a stored owner, whether it succeeds or fails, its contents
have grown from what is stored, as long as the database is its only source. A flush moves the root:
what it writes is what is stored from then on.
-/

namespace LazyCollections

set_option autoImplicit false

variable {T : ElementType} {K : Scalar}

/-- The collection has grown from what is stored, and is held in a session that loads from the
database without a cache. -/
structure Setting.Rooted (d : Descriptor) (a : Attachment) (stored now : Aggregate T K)
    (s : Setting T K Database) : Prop extends s.GrownFrom d a stored now where
  hosted : s.environment.Hosts a

def Setting.IsRooted (d : Descriptor) (a : Attachment) (s : Setting T K Database) : Prop :=
  ∃ stored now : Aggregate T K, s.Rooted d a stored now

def Setting.RootedLoaded (d : Descriptor) (a : Attachment) (contents : Aggregate T K)
    (s : Setting T K Database) : Prop :=
  s.collection.isLoaded = true ∧ ∃ stored, s.Rooted d a stored contents

namespace Setting.Rooted

open LazyCollections.Action

variable {d : Descriptor} {a : Attachment} {stored now next : Aggregate T K}
variable {s s' : Setting T K Database} {later : Environment Database} {c : Collection T K}
variable {E : Error → Setting T K Database → Prop}

theorem isRooted (h : s.Rooted d a stored now) : s.IsRooted d a :=
  ⟨stored, now, h⟩

theorem heldBy (h : s.Rooted d a stored now) : s.HeldBy d a :=
  ⟨h.hosted, h.descriptor, h.attachment⟩

theorem withEnvironment (h : s.Rooted d a stored now) (hlater : s.environment.Agrees later) :
    Setting.Rooted d a stored now { s with environment := later } :=
  { h with
    toProvides := hlater.store.provides h.toProvides
    hosted := hlater.hosts a h.hosted }

theorem withCollection (h : s.Rooted d a stored now) (hc : c.GrownFrom stored next)
    (hdescriptor : c.descriptor = s.collection.descriptor)
    (hattachment : c.attachment = s.collection.attachment) :
    Setting.Rooted d a stored next { s with collection := c } where
  toGrownFrom := h.toGrownFrom.withCollection hc hdescriptor hattachment
  hosted := h.hosted

theorem onlyAsked (h : s.Rooted d a stored now) (hasked : s.OnlyAsked s') :
    s'.Rooted d a stored now := by
  obtain ⟨c, env⟩ := s'
  obtain ⟨rfl, hagrees⟩ := hasked
  exact h.withEnvironment hagrees

theorem replayed (hT : T.Faithful d.shape) (h : s.Rooted d a stored now)
    (hunloaded : s.collection.isLoaded = false) (hc : s.collection.replayOnto stored = .ok c) :
    Setting.Rooted d a stored now { s with collection := c } ∧ c.isLoaded = true := by
  have hreplay := (h.grown.run hunloaded).replay_eq hT.isDirty_self
  obtain ⟨contents, hcontents, hc⟩ := bind_eq_ok.mp hc
  rw [hreplay] at hcontents
  cases hcontents
  cases hc
  have hloaded : (if s.collection.readOnly then Stage.readOnlyInitialized
      else .initialized).isLoaded = true := by
    split <;> rfl
  refine ⟨h.withCollection (.loaded hloaded rfl h.grown.shape_eq
    (h.grown.keyedById h.keyedById) ?_) rfl rfl, hloaded⟩
  cases hchecked : s.collection.descriptor.options.dirtyChecking with
  | false => exact .inl ⟨rfl, rfl⟩
  | true => exact .inr ⟨_, rfl, by rw [Aggregate.deepCopy_eq hT]⟩

theorem ensureInitialized_ensures (hT : T.Faithful d.shape) (hK : K.Restores)
    (h : s.Rooted d a stored now) :
    Ensures s ensureInitialized
      (fun _ s' => s'.Rooted d a stored now ∧ s'.collection.isLoaded = true)
      (fun _ s' => s'.Rooted d a stored now) := by
  obtain ⟨session, hsession, hloader, hcached⟩ := h.heldBy.session_eq
  apply Ensures.ensureInitialized
  · exact fun hloaded => ⟨h, hloaded⟩
  · exact fun _ _ => h
  · intro error hlost
    rw [hsession] at hlost
    cases hlost
  · intro found b hstage hfound
    rw [hsession] at hfound
    cases hfound
    rw [h.descriptor]
    refine (h.toProvides.loadContents_ensures hT.toStorable hK hloader hcached).mono ?_ ?_
    · rintro _ env ⟨rfl, henv⟩
      refine ⟨fun c hc later hlater => ?_, fun _ => h.withEnvironment henv⟩
      obtain ⟨hrooted, hloaded⟩ := h.replayed hT (isLoaded_eq_false hstage) hc
      exact ⟨hrooted.withEnvironment (henv.trans hlater.agrees), hloaded⟩
    · exact fun _ env henv => h.withEnvironment henv.1

theorem loadedContents_ensures (hT : T.Faithful d.shape) (hK : K.Restores)
    (h : s.Rooted d a stored now) :
    Ensures s loadedContents (RootedLoaded d a) (fun _ s' => s'.IsRooted d a) := by
  apply Ensures.loadedContents
  refine (h.ensureInitialized_ensures hT hK).mono ?_ fun _ _ hafter => hafter.isRooted
  rintro _ after ⟨hafter, hloaded⟩
  refine ⟨hloaded, stored, ?_⟩
  rw [hafter.grown.contents_eq hloaded]
  exact hafter

theorem putContents_ensures (h : s.Rooted d a stored now) (hloaded : s.collection.isLoaded = true)
    (hshape : next.shape = now.shape) (hnext : next.KeyedById) :
    Ensures s (putContents next) (fun _ s' => s'.IsRooted d a) E := by
  apply Ensures.putContents
  intro later hlater
  have hgrown : Collection.GrownFrom stored next
      { s.collection with contents := next, dirty := true } := by
    cases h.grown with
    | queued unloaded =>
      rw [hloaded] at unloaded
      cases unloaded
    | loaded _ _ shape_eq _ snapshot =>
      exact .loaded hloaded rfl (hshape.trans shape_eq) hnext snapshot
  exact ((h.withEnvironment hlater.agrees).withCollection hgrown rfl rfl).isRooted

/-- An operation that fits is queued; what it removes from a sequence was found there. -/
theorem enqueue_ensures (h : s.Rooted d a stored now)
    (hstage : s.collection.stage = .uninitialized) {op : QueuedOp T.Element K.Carrier}
    (hstep : QueueStep s.collection.queue now op next)
    (hfound : stored.shape = .sequence → ∀ e, op = .remove .unordered e → T.idOf e ∈ stored.ids) :
    Ensures s (enqueue op) (fun _ s' => s'.IsRooted d a) E := by
  apply Ensures.enqueue
  intro later hlater
  have hgrown : Collection.GrownFrom stored next
      { s.collection with queue := s.collection.queue ++ [op] } := by
    cases h.grown with
    | queued unloaded run found =>
      refine .queued unloaded (.snoc run hstep) fun hshape e he => ?_
      rcases List.mem_append.mp he with he | he
      · exact found hshape e he
      · exact hfound hshape e (List.mem_singleton.mp he).symm
    | loaded loaded =>
      rw [Collection.isLoaded, hstage] at loaded
      cases loaded
  exact ((h.withEnvironment hlater.agrees).withCollection hgrown rfl rfl).isRooted

theorem keeps_fastSize : Keeps (IsRooted d a : Setting T K Database → Prop) fastSize := by
  rintro s ⟨stored, now, h⟩
  refine h.heldBy.fastSize_ensures.mono ?_ fun _ _ hfailed => (h.onlyAsked hfailed.1).isRooted
  intro found s' hlooked
  cases hlooked with
  | unasked => exact h.isRooted
  | asked _ later _ _ hagrees _ =>
    have hsized : Collection.GrownFrom stored now { s.collection with cachedSize := found } :=
      h.grown.congr rfl rfl rfl rfl rfl
    exact ((h.withEnvironment hagrees).withCollection hsized rfl rfl).isRooted

/-- What an answer about an element says of the contents. An element of a sequence is only known to
be there if it was found among the stored ones, and the queue does not concern it. -/
theorem probeMembership_ensures (hT : T.Faithful d.shape) (h : s.Rooted d a stored now)
    (hunloaded : s.collection.isLoaded = false) (hshape : d.shape ≠ .keyed) (e : T.Element) :
    Ensures s (probeMembership e)
      (fun found s' => s.OnlyAsked s' ∧ ∀ x, found = some x → x = now.has e ∧
        (x = true → d.shape = .sequence →
          queuedMembership .sequence s.collection.queue e = none ∧ T.idOf e ∈ stored.ids))
      (fun _ s' => s'.IsRooted d a) := by
  refine (h.heldBy.probeMembership_ensures e).mono ?_
    fun _ _ hfailed => (h.onlyAsked hfailed.1).isRooted
  rintro found s' ⟨hasked, htold⟩
  exact ⟨hasked, fun x hx => (htold x hx).eq_has hT.toStorable (hT.storableId hshape)
    h.toProvides hshape (h.grown.run hunloaded)⟩

theorem probeKey_ensures (hT : T.Storable) (hK : K.Restores)
    {items : SortedMap K.Carrier T.Element} (h : s.Rooted d a stored (.keyed items))
    (hunloaded : s.collection.isLoaded = false) (k : K.Carrier) :
    Ensures s (probeKey k)
      (fun found s' => s.OnlyAsked s' ∧ ∀ entry, found = some entry → items.get? k = entry)
      (fun _ s' => s'.IsRooted d a) := by
  obtain ⟨base, rfl⟩ := Aggregate.exists_eq_keyed h.grown.shape_eq.symm
  refine (h.heldBy.probeKey_ensures k).mono ?_
    fun _ _ hfailed => (h.onlyAsked hfailed.1).isRooted
  rintro found s' ⟨hasked, htold⟩
  exact ⟨hasked, fun entry hentry => (htold entry hentry).get?_eq hT hK h.toProvides
    (h.grown.run hunloaded)⟩

section Calls

variable (hT : T.Faithful d.shape) (hK : K.Restores)
include hT hK

theorem upholds :
    Upholds (IsRooted d a : Setting T K Database → Prop) (IsRooted d a)
      (RootedLoaded d a) where
  settle h := h
  of_loaded := by
    rintro contents s ⟨_, stored, h⟩
    exact h.isRooted
  load := by
    rintro s ⟨stored, now, h⟩
    exact h.loadedContents_ensures hT hK
  put := by
    rintro s contents next ⟨hloaded, stored, h⟩ hshape hnext
    exact h.putContents_ensures hloaded hshape (hnext (h.grown.keyedById h.keyedById))
  fastSize := keeps_fastSize
  queueClear := by
    rintro s ⟨stored, now, h⟩ hstage
    exact h.enqueue_ensures hstage (.clear now) nofun

theorem upholdsList (hd : d.shape = .sequence) :
    UpholdsList (IsRooted d a : Setting T K Database → Prop) (IsRooted d a)
      (RootedLoaded d a) where
  toUpholds := upholds hT hK
  queueAdd := by
    rintro s e ⟨stored, now, h⟩ hstage
    obtain ⟨slots, rfl⟩ := Aggregate.exists_eq_sequence (h.now_shape.trans hd)
    exact h.enqueue_ensures hstage (.append slots e) nofun
  probe := by
    rintro s e ⟨stored, now, h⟩ hstage
    obtain ⟨slots, rfl⟩ := Aggregate.exists_eq_sequence (h.now_shape.trans hd)
    refine (h.probeMembership_ensures hT (isLoaded_eq_false hstage) (by rw [hd]; nofun) e).post ?_
    rintro found s' ⟨hasked, hfound⟩
    have hafter := h.onlyAsked hasked
    rw [← hasked.collection] at hstage hfound
    refine ⟨hafter.isRooted, fun hpresent => ?_⟩
    obtain ⟨hqueue, hstored⟩ := (hfound true hpresent).2 rfl hd
    refine hafter.enqueue_ensures hstage (.removeFirst slots e hqueue) ?_
    rintro _ _ ⟨⟩
    exact hstored

theorem upholdsSet (hd : d.shape = .set) :
    UpholdsSet (IsRooted d a : Setting T K Database → Prop) (IsRooted d a)
      (RootedLoaded d a) where
  toUpholds := upholds hT hK
  probe := by
    rintro s e ⟨stored, now, h⟩ hstage
    obtain ⟨items, rfl⟩ := Aggregate.exists_eq_set (h.now_shape.trans hd)
    refine (h.probeMembership_ensures hT (isLoaded_eq_false hstage) (by rw [hd]; nofun) e).post ?_
    rintro found s' ⟨hasked, hfound⟩
    have hafter := h.onlyAsked hasked
    have hsequence : stored.shape ≠ .sequence := by
      rw [h.shape_eq, hd]
      nofun
    rw [← hasked.collection] at hstage
    rw [Aggregate.has_set (h.grown.keyedById h.keyedById)] at hfound
    refine ⟨hafter.isRooted, fun hpresent => ?_, fun habsent => ?_⟩
    · obtain ⟨found, hget⟩ := SortedMap.contains_iff.mp (hfound true hpresent).1.symm
      exact hafter.enqueue_ensures hstage (.erase items e (by rw [hget]; nofun))
        fun hshape => absurd hshape hsequence
    · have hget := SortedMap.contains_eq_false_iff.mp (hfound false habsent).1.symm
      exact hafter.enqueue_ensures hstage (.insert items e hget)
        fun hshape => absurd hshape hsequence

theorem upholdsMap (hd : d.shape = .keyed) :
    UpholdsMap (IsRooted d a : Setting T K Database → Prop) (IsRooted d a)
      (RootedLoaded d a) where
  toUpholds := upholds hT hK
  probe := by
    rintro s k ⟨stored, now, h⟩ hstage
    obtain ⟨items, rfl⟩ := Aggregate.exists_eq_keyed (h.now_shape.trans hd)
    refine (h.probeKey_ensures hT.toStorable hK (isLoaded_eq_false hstage) k).post ?_
    rintro found s' ⟨hasked, hfound⟩
    have hafter := h.onlyAsked hasked
    have hsequence : stored.shape ≠ .sequence := by
      rw [h.shape_eq, hd]
      nofun
    rw [← hasked.collection] at hstage
    have hqueues {op : QueuedOp T.Element K.Carrier} {next : Aggregate T K}
        (hstep : QueueStep s'.collection.queue (.keyed items) op next) :
        Ensures s' (enqueue op) (fun _ s' => s'.IsRooted d a) fun _ s' => s'.IsRooted d a :=
      hafter.enqueue_ensures hstage hstep fun hshape => absurd hshape hsequence
    refine ⟨hafter.isRooted, fun habsent e => ?_, fun old hpresent => ⟨?_, fun e => ?_⟩⟩
    · exact hqueues (.put items k e (hfound none habsent))
    · exact hqueues (.take items k old (hfound (some old) hpresent))
    · exact hqueues (.replace items k old e (hfound (some old) hpresent))

end Calls

theorem withSource (h : s.Rooted d a stored now) {db : Database}
    (hcollections : db.store.collections = s.environment.source.store.collections)
    (hidentities : db.store.identities = s.environment.source.store.identities) :
    Setting.Rooted d a stored now
      { s with environment := { s.environment with source := db } } :=
  { h with
    toProvides := h.toProvides.congr ⟨hcollections, hidentities⟩
    hosted := h.hosted }

/-- A flush keeps the collection rooted: in what it has written, or in what was stored before. What
it writes of loaded contents depends on which states it finds changed. -/
theorem flush_ensures (hT : T.Faithful d.shape) (hK : K.Restores)
    (hlawful : s.collection.isLoaded = true → T.Lawful d.shape) (h : s.Rooted d a stored now) :
    Ensures s (flush Database.persister) (fun _ s' => s'.IsRooted d a)
      fun _ s' => s'.IsRooted d a := by
  apply h.heldBy.flush_ensures
  · exact fun _ later hlater => (h.withEnvironment hlater.agrees).isRooted
  · exact fun _ => h.isRooted
  · exact fun _ _ _ => h.isRooted
  · intro _ _
    have hclean : Collection.GrownFrom stored now { s.collection with dirty := false } :=
      h.grown.congr rfl rfl rfl rfl rfl
    exact (h.withCollection hclean rfl rfl).isRooted
  · intro hunloaded _
    exact ⟨_, _, h.withoutQueue hunloaded h.toProvides, h.hosted⟩
  · intro changes hover source haccepted later hlater
    have hprovides := h.provides_persister hT hK hlawful hover haccepted
    rw [← show later.source = source from hlater.source] at hprovides
    obtain ⟨next, _, hsettled⟩ := h.settled hT hprovides
    have hhosted : Environment.Hosts { s.environment with source } a := h.hosted
    exact ⟨_, _, hsettled, hlater.agrees.hosts a hhosted⟩
  · intro changes hover error source hrefused
    have hstore := Database.store_of_persister_error hrefused
    exact (h.withSource (congrArg Store.collections hstore)
      (congrArg Store.identities hstore)).isRooted

end Setting.Rooted

end LazyCollections
