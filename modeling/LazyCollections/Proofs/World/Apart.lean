import LazyCollections.Proofs.Collection.Apart
import LazyCollections.Proofs.World.Ties

/-!
# Collections do not interfere

Many collections act in one world, on one store, through one region without a capacity, and in any
sessions. What is done with one of them that is attached leaves everything else as it was: the other
collections, the rows and the entries under other keys, the other owners and the other attachments.
So two collections of different owners or roles can be used in either order.
-/

namespace LazyCollections

set_option autoImplicit false

variable {κ : Type} {kinds : κ → Kind} {T : ElementType} {K : Scalar}

/-- What is done with a collection where it is, other than flushing it. -/
inductive Chore (T : ElementType) (K : Scalar) where
  | ofList (call : ListCall T)
  | ofSet (call : SetCall T)
  | ofMap (call : MapCall T K)
  | ensureInitialized
  | assemble (entry : CacheEntry)
  | disassemble
  | setReadOnly (readOnly : Bool)
  | setCachedSize (size : Nat)

inductive Turn {κ : Type} (kinds : κ → Kind) where
  | handle (chore : (k : κ) → Chore (kinds k).element (kinds k).key)
  | flush
  | unbind
  | drop

inductive Reply {κ : Type} (kinds : κ → Kind) where
  | absent
  | failed (error : Error)
  | done
  | answered (k : κ) (answer : Answer (kinds k).element (kinds k).key)
  | disassembled (entry : CacheEntry)
  | flushed (outcome : FlushOutcome)
  | dropped (found : Bool)

open LazyCollections.Action in
def Chore.run (kinds : κ → Kind) (k : κ) : Chore (kinds k).element (kinds k).key →
    Action (kinds k).element (kinds k).key Database (Reply kinds)
  | ofList call => return .answered k (← call.run)
  | ofSet call => return .answered k (← call.run)
  | ofMap call => return .answered k (← call.run)
  | ensureInitialized => do
    Action.ensureInitialized
    return .done
  | assemble entry => do
    Action.assemble entry
    return .done
  | disassemble => return .disassembled (← Action.disassemble)
  | setReadOnly readOnly => do
    modifyCollection fun c => c.setReadOnly readOnly
    return .done
  | setCachedSize size => do
    modifyCollection fun c => c.setCachedSize size
    return .done

def Reply.ofAct (w : World kinds Database) :
    Option (Except Error (Reply kinds) × World kinds Database) →
      Reply kinds × World kinds Database
  | none => (.absent, w)
  | some (.ok reply, after) => (reply, after)
  | some (.error error, after) => (.failed error, after)

/-- The reply to a turn of the named collection, and the world that it leaves. Changes are flushed
to the database. -/
def Turn.run (name : String) (w : World kinds Database) : Turn kinds →
    Reply kinds × World kinds Database
  | handle chore => Reply.ofAct w (w.act name fun k => (chore k).run kinds k)
  | flush => Reply.ofAct w <| w.act name fun _ => do
    return .flushed (← Action.flush Database.persister)
  | unbind => Reply.ofAct w <| w.act name fun _ => do
    Action.unbind
    return .done
  | drop => (.dropped (w.drop name).1, (w.drop name).2)

def Turn.flushes : Turn kinds → Bool
  | flush => true
  | handle _ | unbind | drop => false

/-- Apart from the collection of the name and what is kept of it, everything is as it was. -/
structure World.Spares (name : String) (role : Role) (a : Attachment)
    (w later : World kinds Database) : Prop where
  members : ∀ other, other ≠ name → later.members.get? other = w.members.get? other
  rows : ∀ key, key ≠ ⟨role, a.owner⟩ →
    later.environment.source.store.rows? key = w.environment.source.store.rows? key
  entries : ∀ key, key ≠ ⟨role, a.owner⟩ →
    later.environment.cache.region.entries.get? key = w.environment.cache.region.entries.get? key
  owners : ∀ id slot, (id, slot) ≠ (a.session, a.slot) →
    later.environment.owner? id slot = w.environment.owner? id slot
  attached : ∀ id slot other, (id, slot, other) ≠ (a.session, a.slot, role) →
    (later.environment.IsAttached id slot other ↔ w.environment.IsAttached id slot other)

/-- The turns have the same replies in either order, and leave the same collections, rows and
entries. -/
structure World.Commute (w : World kinds Database) (first second : String)
    (turn turn' : Turn kinds) : Prop where
  reply : (turn.run first (turn'.run second w).2).1 = (turn.run first w).1
  reply' : (turn'.run second (turn.run first w).2).1 = (turn'.run second w).1
  members : (turn.run first (turn'.run second w).2).2.members =
    (turn'.run second (turn.run first w).2).2.members
  rows : ∀ key, (turn.run first (turn'.run second w).2).2.environment.source.store.rows? key =
    (turn'.run second (turn.run first w).2).2.environment.source.store.rows? key
  entries : ∀ key,
    (turn.run first (turn'.run second w).2).2.environment.cache.region.entries.get? key =
      (turn'.run second (turn.run first w).2).2.environment.cache.region.entries.get? key

theorem Chore.apart {flushes : Bool} {d : Descriptor} {a : Attachment} (k : κ)
    (chore : Chore (kinds k).element (kinds k).key) :
    Action.Apart flushes d a (chore.run kinds k) := by
  cases chore with
  | ofList call => exact fun s s' h => (Action.Apart.call (.ofList call) s s' h).map _
  | ofSet call => exact fun s s' h => (Action.Apart.call (.ofSet call) s s' h).map _
  | ofMap call => exact fun s s' h => (Action.Apart.call (.ofMap call) s s' h).map _
  | ensureInitialized =>
    exact fun s s' h => (Action.Apart.ensureInitialized s s' h).bind fun _ _ _ h => .pure h _
  | assemble entry =>
    exact fun s s' h => (Action.Apart.assemble entry s s' h).bind fun _ _ _ h => .pure h _
  | disassemble => exact fun s s' h => (Action.Apart.disassemble s s' h).map _
  | setReadOnly readOnly =>
    exact fun s s' h =>
      .modifyCollection_bind h h.attachment h.descriptor fun _ _ h => .pure h _
  | setCachedSize size =>
    intro s s' h
    refine .modifyCollection_bind h ?_ ?_ fun _ _ h => .pure h _
    · unfold Collection.setCachedSize
      split <;> exact h.attachment
    · unfold Collection.setCachedSize
      split <;> exact h.descriptor

namespace World

structure Twins (flushes : Bool) (name : String) (m : Member kinds) (a : Attachment)
    (w w' : World kinds Database) : Prop where
  member : w.members.get? name = some m
  member' : w'.members.get? name = some m
  attachment : m.2.attachment = some a
  common : w.environment.Common
  alike : w.environment.Alike flushes ⟨m.2.role, a.owner⟩ w'.environment

/-- Both turns have the same reply and leave the collection of the name the same, in alike
environments, and the first one spares what is not its own. -/
structure Matches (flushes : Bool) (name : String) (role : Role) (a : Attachment)
    (w : World kinds Database) (ran ran' : Reply kinds × World kinds Database) : Prop where
  reply : ran'.1 = ran.1
  member : ran'.2.members.get? name = ran.2.members.get? name
  alike : ran.2.environment.Alike flushes ⟨role, a.owner⟩ ran'.2.environment
  others : ∀ other, other ≠ name → ran.2.members.get? other = w.members.get? other
  spares : w.environment.Spares flushes role a ran.2.environment

variable {flushes : Bool} {name : String} {m : Member kinds} {a : Attachment}
variable {w w' : World kinds Database}

theorem Twins.refl (hm : w.members.get? name = some m) (hattachment : m.2.attachment = some a)
    (hcommon : w.environment.Common) : w.Twins flushes name m a w :=
  ⟨hm, hm, hattachment, hcommon, .refl _⟩

theorem Twins.act (h : w.Twins flushes name m a w')
    {action : (k : κ) → Action (kinds k).element (kinds k).key Database (Reply kinds)}
    (haction : Action.Apart flushes m.2.descriptor a (action m.1)) :
    Matches flushes name m.2.role a w (Reply.ofAct w (w.act name action))
      (Reply.ofAct w' (w'.act name action)) := by
  obtain ⟨result, after, after', hrun, hrun', htwins, hspares⟩ :=
    haction ⟨m.2, w.environment⟩ ⟨m.2, w'.environment⟩
      ⟨rfl, h.attachment, rfl, h.common, h.alike⟩
  rw [act_eq h.member, act_eq h.member', hrun, hrun', htwins.collection]
  have hmember (members members' : SortedMap String (Member kinds)) :
      (members'.insert name ⟨m.1, after.collection⟩).get? name =
        (members.insert name ⟨m.1, after.collection⟩).get? name := by
    rw [SortedMap.get?_insert_self, SortedMap.get?_insert_self]
  have hothers (other : String) (hother : other ≠ name) :
      (w.members.insert name ⟨m.1, after.collection⟩).get? other = w.members.get? other :=
    SortedMap.get?_insert_of_ne _ _ hother.symm
  cases result with
  | ok reply => exact ⟨rfl, hmember _ _, htwins.alike, hothers, hspares⟩
  | error error => exact ⟨rfl, hmember _ _, htwins.alike, hothers, hspares⟩

theorem Twins.release (h : w.Twins flushes name m a w') :
    (w.environment.letGo m.2.tie).Alike flushes ⟨m.2.role, a.owner⟩
        (w'.environment.letGo m.2.tie) ∧
      w.environment.Spares flushes m.2.role a (w.environment.letGo m.2.tie) := by
  rw [Collection.tie, h.attachment, Option.map_some]
  exact ⟨h.alike.onSession a.session fun _ => rfl, w.environment.spares_release a m.2.role⟩

theorem Twins.unbind (h : w.Twins flushes name m a w') :
    Matches flushes name m.2.role a w (Turn.unbind.run name w) (Turn.unbind.run name w') := by
  have hrun (env : Environment Database) :
      (do Action.unbind; return .done : Action (kinds m.1).element (kinds m.1).key Database
        (Reply kinds)).runOn ⟨m.2, env⟩ =
        (.ok .done, ⟨{ m.2.loseSession with attachment := none }, env.letGo m.2.tie⟩) := by
    rw [Action.runOn_bind, Action.runOn_unbind]
    rfl
  obtain ⟨halike, hspares⟩ := h.release
  rw [Turn.run, Turn.run, act_eq h.member, act_eq h.member', hrun, hrun]
  refine ⟨rfl, ?_, halike, fun other hother => SortedMap.get?_insert_of_ne _ _ hother.symm, hspares⟩
  simp only [Reply.ofAct, SortedMap.get?_insert_self]

theorem Twins.drop (h : w.Twins flushes name m a w') :
    Matches flushes name m.2.role a w (Turn.drop.run name w) (Turn.drop.run name w') := by
  have hdrop {w : World kinds Database} (hm : w.members.get? name = some m) :
      w.drop name = (true, ⟨w.environment.letGo m.2.tie, w.members.erase name⟩) := by
    rw [World.drop, hm]
    simp only [release_eq]
  obtain ⟨halike, hspares⟩ := h.release
  rw [Turn.run, Turn.run, hdrop h.member, hdrop h.member']
  refine ⟨rfl, ?_, halike, fun other hother => SortedMap.get?_erase_of_ne _ hother.symm, hspares⟩
  rw [SortedMap.get?_erase_self, SortedMap.get?_erase_self]

theorem Twins.turn (h : w.Twins flushes name m a w') (turn : Turn kinds)
    (hflushes : turn.flushes = true → flushes = true) :
    Matches flushes name m.2.role a w (turn.run name w) (turn.run name w') := by
  cases turn with
  | handle chore => exact h.act ((chore m.1).apart m.1)
  | flush =>
    obtain rfl := hflushes rfl
    exact h.act fun s s' hs => (Action.Apart.flush s s' hs).map _
  | unbind => exact h.unbind
  | drop => exact h.drop

variable {other : String} {role role' : Role} {a' : Attachment} {turn turn' : Turn kinds}

theorem exists_tied (hties : w.ties name = some (a, role)) :
    ∃ m : Member kinds, m.2.role = role ∧ w.members.get? name = some m ∧
      m.2.attachment = some a := by
  rw [ties, Option.bind_eq_some_iff] at hties
  obtain ⟨m, hm, htie⟩ := hties
  rw [Collection.tie, Option.map_eq_some_iff] at htie
  obtain ⟨_, hattachment, heq⟩ := htie
  obtain ⟨rfl, rfl⟩ := Prod.mk.inj heq
  exact ⟨m, rfl, hm, hattachment⟩

theorem turn_spares (hcommon : w.environment.Common) (hties : w.ties name = some (a, role))
    (turn : Turn kinds) : w.Spares name role a (turn.run name w).2 := by
  obtain ⟨m, rfl, hm, hattachment⟩ := exists_tied hties
  have hran := (Twins.refl hm hattachment hcommon).turn turn id
  exact
    { members := hran.others
      rows := hran.spares.source.rows
      entries := hran.spares.cache.entries
      owners := hran.spares.owners
      attached := hran.spares.attached }

/-- Two changes, each of one place and the same with and without the other, give the same in either
order. -/
theorem eq_of_apart {ι β : Type} {i j : ι} (hne : i ≠ j)
    {f first second late late' : ι → β} (hfirst : ∀ k, k ≠ i → first k = f k)
    (hsecond : ∀ k, k ≠ j → second k = f k) (hlate : ∀ k, k ≠ i → late k = second k)
    (hlate' : ∀ k, k ≠ j → late' k = first k) (hi : late i = first i) (hj : late' j = second j)
    (k : ι) : late k = late' k := by
  by_cases hki : k = i
  · rw [hki, hi, hlate' i hne]
  · by_cases hkj : k = j
    · rw [hkj, hj, hlate j hne.symm]
    · rw [hlate k hki, hsecond k hkj, hlate' k hkj, hfirst k hki]

theorem Twins.beside {flushes' : Bool} (h : w.Twins flushes name m a w)
    {ran : Reply kinds × World kinds Database}
    (hran : Matches flushes' other role' a' w ran ran) (hname : name ≠ other)
    (hkey : (⟨m.2.role, a.owner⟩ : CollectionKey) ≠ ⟨role', a'.owner⟩)
    (hrefuse : flushes' = true → flushes = true → w.environment.source.refuseNext = false) :
    w.Twins flushes name m a ran.2 where
  member := h.member
  member' := (hran.others name hname).trans h.member
  attachment := h.attachment
  common := h.common
  alike := hran.spares.alike hkey hrefuse

theorem Twins.late {flushes' : Bool} (h : w.Twins flushes name m a w')
    (hspares : w.environment.Spares flushes' role' a' w'.environment) :
    w'.Twins flushes name m a w' :=
  .refl h.member' h.attachment (h.common.spares hspares)

theorem turns_commute (hcommon : w.environment.Common) (hties : w.ties name = some (a, role))
    (hties' : w.ties other = some (a', role'))
    (hkey : (⟨role, a.owner⟩ : CollectionKey) ≠ ⟨role', a'.owner⟩)
    (hrefuse : turn.flushes = true → turn'.flushes = true →
      w.environment.source.refuseNext = false) :
    w.Commute name other turn turn' := by
  have hname : name ≠ other := by
    rintro rfl
    rw [hties] at hties'
    cases hties'
    exact hkey rfl
  obtain ⟨m, rfl, hm, hattachment⟩ := exists_tied hties
  obtain ⟨m', rfl, hm', hattachment'⟩ := exists_tied hties'
  have hself : w.Twins turn.flushes name m a w := .refl hm hattachment hcommon
  have hself' : w.Twins turn'.flushes other m' a' w := .refl hm' hattachment' hcommon
  have hran := hself.turn turn id
  have hran' := hself'.turn turn' id
  -- The same turns once the other one has been taken.
  have htwins := hself.beside hran' hname hkey fun h' h => hrefuse h h'
  have htwins' := hself'.beside hran hname.symm hkey.symm hrefuse
  have hlate := htwins.turn turn id
  have hlate' := htwins'.turn turn' id
  have hspares := (htwins.late hran'.spares).turn turn id
  have hspares' := (htwins'.late hran.spares).turn turn' id
  exact
    { reply := hlate.reply
      reply' := hlate'.reply
      members := SortedMap.ext_get? (eq_of_apart hname hran.others hran'.others hspares.others
        hspares'.others hlate.member hlate'.member)
      rows := eq_of_apart hkey hran.spares.source.rows hran'.spares.source.rows
        hspares.spares.source.rows hspares'.spares.source.rows hlate.alike.source.rows
        hlate'.alike.source.rows
      entries := eq_of_apart hkey hran.spares.cache.entries hran'.spares.cache.entries
        hspares.spares.cache.entries hspares'.spares.cache.entries hlate.alike.cache.entry
        hlate'.alike.cache.entry }

end World

/-- In a world on one database, with a region that has no capacity, a turn of a collection that is
attached leaves the other collections, the rows and the entries under other keys, the other owners
and the other attachments as they were. Turns of two collections of different owners or roles have
the same replies in either order and leave the same collections, rows and entries. If both flush,
the persister must not have been told to refuse the next change, since it would refuse whichever
comes first. -/
theorem World.turns_do_not_interfere {w : World kinds Database} (h : w.environment.Common) :
    (∀ name role a (turn : Turn kinds), w.ties name = some (a, role) →
      w.Spares name role a (turn.run name w).2) ∧
    ∀ name other role role' a a' (turn turn' : Turn kinds), w.ties name = some (a, role) →
      w.ties other = some (a', role') → role ≠ role' ∨ a.owner ≠ a'.owner →
      (turn.flushes = true → turn'.flushes = true → w.environment.source.refuseNext = false) →
      w.Commute name other turn turn' := by
  refine ⟨fun _ _ _ turn hties => turn_spares h hties turn, ?_⟩
  intro name other role role' a a' turn turn' hties hties' hdiffer hrefuse
  refine turns_commute h hties hties' ?_ hrefuse
  intro hkey
  obtain ⟨hrole, howner⟩ := CollectionKey.mk.inj hkey
  exact hdiffer.elim (absurd hrole) (absurd howner)

def Event.notesAndTags :
    List (Event (fun _ : Unit => ⟨.ofScalar .text, .unkeyed⟩) Database) :=
  [.openSession {} Database.loader true, .registerOwner ⟨0⟩ (.filled 9),
    .create "notes" () (.ofList ["urgent"]) ⟨0⟩ 0 .orderNotes,
    .create "tags" () (.stored .set) ⟨0⟩ 0 ⟨⟨"Order.tags"⟩, .set, {}⟩]

/-- The notes can be stored before or after the tags are changed. -/
theorem World.turns_do_not_interfere_notes :
    let w := Event.runAll Event.notesAndTags (World.beginning { region := .empty none } {})
    let store : Turn fun _ : Unit => ⟨.ofScalar .text, .unkeyed⟩ := .flush
    let change : Turn fun _ : Unit => ⟨.ofScalar .text, .unkeyed⟩ :=
      .handle fun _ => .ofSet (.insert "fragile")
    w.Spares "notes" ⟨"Order.notes"⟩ ⟨⟨0⟩, 0, .filled 9⟩ (store.run "notes" w).2 ∧
      w.Commute "notes" "tags" store change := by
  intro w store change
  have hcommon : w.environment.Common := by
    refine ⟨?_, rfl⟩
    intro s hs
    cases hs with
    | head => rfl
    | tail _ hs => cases hs
  obtain ⟨hspares, hcommute⟩ := World.turns_do_not_interfere hcommon
  refine ⟨hspares _ _ _ _ rfl, hcommute _ _ ⟨"Order.notes"⟩ ⟨"Order.tags"⟩ _ _ _ _ rfl rfl ?_ ?_⟩
  · exact .inl (by decide)
  · exact nofun

end LazyCollections
