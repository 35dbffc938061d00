import Mathlib.Data.List.Induction
import Mathlib.Data.List.Perm.Basic
import LazyCollections.Proofs.Cache.Regions

/-!
# The books of a region

A region keeps its entries and, beside them, the order of their keys. Whatever it is called for,
the order lists the keys of the entries, each once, and in the order in which they were last added.
An entry has the bytes that were last written under its key, and it is there until its key is
evicted, cleared away or pushed out; to make room, a new key pushes out the oldest keys and no more
than it has to.
-/

namespace LazyCollections

set_option autoImplicit false

/-- What a region can be called for. -/
inductive RegionCall where
  | get (key : CollectionKey)
  | put (key : CollectionKey) (bytes : List UInt8)
  | evict (key : CollectionKey)
  | clear
  | inject (key : CollectionKey) (bytes : List UInt8)
  | setOffline (offline : Bool)

namespace Region

/-- How many of the oldest keys must go before a new one fits. -/
def excess (region : Region) : Nat :=
  match region.capacity with
  | none => 0
  | some limit => region.size + 1 - limit

/-- The keys that a write of a key pushes out, the oldest first. -/
def pushedOutBy (region : Region) (key : CollectionKey) : List CollectionKey :=
  if region.contains key then [] else (region.order ++ [key]).take region.excess

end Region

namespace RegionCall

/-- The region after a call. A call that fails leaves it as it was. -/
def after (region : Region) : RegionCall → Region
  | get _ => region
  | put key bytes => (region.put key bytes).toOption.getD region
  | evict key => ((region.evict key).toOption.map Prod.snd).getD region
  | clear => region.clear.toOption.getD region
  | inject key bytes => region.inject key bytes
  | setOffline offline => region.setOffline offline

def Writes (key : CollectionKey) (bytes : List UInt8) (region : Region) (call : RegionCall) :
    Prop :=
  call = put key bytes ∧ region.offline = false ∨ call = inject key bytes

def Adds (key : CollectionKey) (region : Region) (call : RegionCall) : Prop :=
  region.contains key = false ∧ ∃ bytes, call.Writes key bytes region

/-- The call evicts a key, clears it away or pushes it out. -/
def Removes (key : CollectionKey) (region : Region) (call : RegionCall) : Prop :=
  region.offline = false ∧
    (call = evict key ∨ call = clear ∨
      ∃ other bytes, call = put other bytes ∧ key ∈ region.pushedOutBy other)

end RegionCall

namespace Region

def runAll (calls : List RegionCall) (region : Region) : Region :=
  calls.foldl RegionCall.after region

/-- The call at an index does something, seen from the region as it finds it. -/
def HappensAt (start : Region) (calls : List RegionCall) (p : Region → RegionCall → Prop)
    (i : Nat) : Prop :=
  ∃ call, calls[i]? = some call ∧ p (start.runAll (calls.take i)) call

def LastAddedAt (start : Region) (calls : List RegionCall) (key : CollectionKey) (i : Nat) : Prop :=
  start.HappensAt calls (RegionCall.Adds key) i ∧
    ∀ j, i < j → ¬start.HappensAt calls (RegionCall.Adds key) j

/-- The bytes are the last that were written under a key, and the key was not removed since. -/
def LastWritten (start : Region) (calls : List RegionCall) (key : CollectionKey)
    (bytes : List UInt8) : Prop :=
  ∃ i, start.HappensAt calls (RegionCall.Writes key bytes) i ∧
    (∀ j, i < j → ∀ other, ¬start.HappensAt calls (RegionCall.Writes key other) j) ∧
    ∀ j, i ≤ j → ¬start.HappensAt calls (RegionCall.Removes key) j

section Histories

variable {start : Region} {calls : List RegionCall} {call : RegionCall} {key : CollectionKey}

theorem runAll_snoc (start : Region) (calls : List RegionCall) (call : RegionCall) :
    start.runAll (calls ++ [call]) = call.after (start.runAll calls) :=
  List.foldl_append

theorem HappensAt.lt {p : Region → RegionCall → Prop} {i : Nat} (h : start.HappensAt calls p i) :
    i < calls.length := by
  obtain ⟨call, hcall, _⟩ := h
  exact (List.getElem?_eq_some_iff.mp hcall).1

theorem happensAt_snoc {p : Region → RegionCall → Prop} {i : Nat} :
    start.HappensAt (calls ++ [call]) p i ↔
      start.HappensAt calls p i ∨ i = calls.length ∧ p (start.runAll calls) call := by
  constructor
  · rintro ⟨found, hfound, hp⟩
    by_cases hi : i < calls.length
    · rw [List.getElem?_append_left hi] at hfound
      rw [List.take_append_of_le_length (Nat.le_of_lt hi)] at hp
      exact Or.inl ⟨found, hfound, hp⟩
    · obtain rfl : i = calls.length := by
        have hlt := HappensAt.lt ⟨found, hfound, hp⟩
        simp at hlt
        omega
      obtain rfl : call = found := by simpa using hfound
      rw [List.take_left] at hp
      exact Or.inr ⟨rfl, hp⟩
  · rintro (h | ⟨rfl, hp⟩)
    · have hi := h.lt
      obtain ⟨found, hfound, hp⟩ := h
      refine ⟨found, ?_, ?_⟩
      · rw [List.getElem?_append_left hi, hfound]
      · rwa [List.take_append_of_le_length (Nat.le_of_lt hi)]
    · exact ⟨call, by simp, by rwa [List.take_left]⟩

theorem LastAddedAt.lt {i : Nat} (h : start.LastAddedAt calls key i) : i < calls.length :=
  h.1.lt

theorem LastAddedAt.snoc {i : Nat} (h : start.LastAddedAt calls key i)
    (hcall : ¬call.Adds key (start.runAll calls)) : start.LastAddedAt (calls ++ [call]) key i := by
  refine ⟨happensAt_snoc.mpr (Or.inl h.1), fun j hj hadds => ?_⟩
  rcases happensAt_snoc.mp hadds with hadds | ⟨_, hadds⟩
  · exact h.2 j hj hadds
  · exact hcall hadds

theorem lastAddedAt_snoc (hcall : call.Adds key (start.runAll calls)) :
    start.LastAddedAt (calls ++ [call]) key calls.length := by
  refine ⟨happensAt_snoc.mpr (Or.inr ⟨rfl, hcall⟩), fun j hj hadds => ?_⟩
  have hlt := hadds.lt
  simp at hlt
  omega

theorem lastWritten_of_writes {bytes : List UInt8}
    (hwrites : call.Writes key bytes (start.runAll calls))
    (hkept : ¬call.Removes key (start.runAll calls)) :
    start.LastWritten (calls ++ [call]) key bytes := by
  refine ⟨calls.length, happensAt_snoc.mpr (Or.inr ⟨rfl, hwrites⟩), ?_, ?_⟩
  · intro j hj other hother
    have hlt := hother.lt
    simp only [List.length_append, List.length_singleton] at hlt
    omega
  · intro j hj hgone
    rcases happensAt_snoc.mp hgone with hgone | ⟨_, hgone⟩
    · exact absurd hgone.lt (by omega)
    · exact hkept hgone

theorem LastWritten.snoc {bytes : List UInt8} (h : start.LastWritten calls key bytes)
    (hnone : ∀ other, ¬call.Writes key other (start.runAll calls))
    (hkept : ¬call.Removes key (start.runAll calls)) :
    start.LastWritten (calls ++ [call]) key bytes := by
  obtain ⟨i, hwrites, hlast, hstays⟩ := h
  refine ⟨i, happensAt_snoc.mpr (Or.inl hwrites), ?_, ?_⟩
  · intro j hj other hother
    rcases happensAt_snoc.mp hother with hother | ⟨_, hother⟩
    · exact hlast j hj other hother
    · exact hnone other hother
  · intro j hj hgone
    rcases happensAt_snoc.mp hgone with hgone | ⟨_, hgone⟩
    · exact hstays j hj hgone
    · exact hkept hgone

theorem LastWritten.of_snoc {bytes : List UInt8}
    (h : start.LastWritten (calls ++ [call]) key bytes) :
    ¬call.Removes key (start.runAll calls) ∧
      (call.Writes key bytes (start.runAll calls) ∨
        (∀ other, ¬call.Writes key other (start.runAll calls)) ∧
          start.LastWritten calls key bytes) := by
  obtain ⟨i, hwrites, hlast, hkept⟩ := h
  have hi := hwrites.lt
  simp only [List.length_append, List.length_singleton] at hi
  refine ⟨fun hremoves => ?_, ?_⟩
  · exact hkept calls.length (by omega) (happensAt_snoc.mpr (Or.inr ⟨rfl, hremoves⟩))
  rcases happensAt_snoc.mp hwrites with hwrites | ⟨_, hwrites⟩
  · refine Or.inr ⟨fun other hother => ?_, i, hwrites, ?_, ?_⟩
    · exact hlast calls.length hwrites.lt other (happensAt_snoc.mpr (Or.inr ⟨rfl, hother⟩))
    · exact fun j hj other hother => hlast j hj other (happensAt_snoc.mpr (Or.inl hother))
    · exact fun j hj hremoves => hkept j hj (happensAt_snoc.mpr (Or.inl hremoves))
  · exact Or.inl hwrites

theorem lastWritten_snoc {bytes : List UInt8} :
    start.LastWritten (calls ++ [call]) key bytes ↔
      ¬call.Removes key (start.runAll calls) ∧
        (call.Writes key bytes (start.runAll calls) ∨
          (∀ other, ¬call.Writes key other (start.runAll calls)) ∧
            start.LastWritten calls key bytes) := by
  constructor
  · exact LastWritten.of_snoc
  · rintro ⟨hkept, hwrites | ⟨hnone, hlast⟩⟩
    · exact lastWritten_of_writes hwrites hkept
    · exact hlast.snoc hnone hkept

end Histories

structure Lists (keys : List CollectionKey) (entries : SortedMap CollectionKey (List UInt8)) :
    Prop where
  nodup : keys.Nodup
  mem_iff : ∀ key, key ∈ keys ↔ entries.contains key = true

namespace Lists

variable {key : CollectionKey} {keys gone : List CollectionKey}
variable {entries : SortedMap CollectionKey (List UInt8)}

theorem empty : Lists [] (∅ : SortedMap CollectionKey (List UInt8)) where
  nodup := List.Pairwise.nil
  mem_iff key := by simp [SortedMap.contains, EmptyCollection.emptyCollection]

theorem length_eq (h : Lists keys entries) : keys.length = entries.size := by
  have hkeys : keys.Perm entries.keys := by
    refine (List.perm_ext_iff_of_nodup h.nodup entries.nodup_keys).mpr fun key => ?_
    rw [h.mem_iff, SortedMap.contains_iff]
    constructor
    · rintro ⟨bytes, hfound⟩
      exact List.mem_map_of_mem (f := Prod.fst) (SortedMap.get?_eq_some_iff.mp hfound)
    · intro hkey
      obtain ⟨e, he, rfl⟩ := List.mem_map.mp hkey
      exact ⟨e.2, SortedMap.get?_eq_some_iff.mpr he⟩
  rw [hkeys.length_eq, SortedMap.keys, List.length_map, SortedMap.size]

theorem erase_head (h : Lists (key :: keys) entries) : Lists keys (entries.erase key) where
  nodup := (List.nodup_cons.mp h.nodup).2
  mem_iff other := by
    by_cases hkey : key = other
    · subst hkey
      simp [SortedMap.contains, (List.nodup_cons.mp h.nodup).1]
    · rw [SortedMap.contains, SortedMap.get?_erase_of_ne _ hkey]
      have hmem := h.mem_iff other
      simpa [Ne.symm hkey, SortedMap.contains] using hmem

theorem erase_append (h : Lists (gone ++ keys) entries) :
    Lists keys (gone.foldl SortedMap.erase entries) := by
  induction gone generalizing entries with
  | nil => exact h
  | cons key gone ih => exact ih h.erase_head

theorem filter (h : Lists keys entries) (key : CollectionKey) :
    Lists (keys.filter (· ≠ key)) (entries.erase key) where
  nodup := h.nodup.filter _
  mem_iff other := by
    by_cases hkey : key = other
    · subst hkey
      simp [SortedMap.contains]
    · rw [SortedMap.contains, SortedMap.get?_erase_of_ne _ hkey]
      have hmem := h.mem_iff other
      simpa [Ne.symm hkey, SortedMap.contains] using hmem

theorem pushOut_eq (h : Lists keys entries) (limit : Nat) :
    pushOut limit keys entries =
      (keys.drop (keys.length - limit),
        (keys.take (keys.length - limit)).foldl SortedMap.erase entries) := by
  induction keys generalizing entries with
  | nil => simp [pushOut]
  | cons key keys ih =>
    have hsize := h.length_eq
    rw [List.length_cons] at hsize
    rw [pushOut, ← hsize]
    split
    next hlimit =>
      rw [ih h.erase_head, List.length_cons, Nat.succ_sub (by omega)]
      rfl
    next hlimit =>
      rw [List.length_cons, Nat.sub_eq_zero_of_le (by omega)]
      rfl

end Lists

section Calls

variable {region next : Region} {key : CollectionKey} {bytes : List UInt8}

theorem checkOnline_eq_ok (hon : region.offline = false) : region.checkOnline = .ok () := by
  rw [checkOnline, hon]
  rfl

theorem order_write_of_contains (h : region.contains key = true) :
    (region.write key bytes).order = region.order :=
  if_pos h

theorem order_write_of_new (h : region.contains key = false) :
    (region.write key bytes).order = region.order ++ [key] :=
  if_neg (by simp [h])

theorem get?_write_eq_some_iff {other : CollectionKey} {found : List UInt8} :
    (region.write key bytes).entries.get? other = some found ↔
      key = other ∧ bytes = found ∨ key ≠ other ∧ region.entries.get? other = some found := by
  by_cases hkey : key = other
  · subst hkey
    simp [Region.write]
  · simp [Region.write, SortedMap.get?_insert_of_ne _ _ hkey, hkey]

theorem pushedOutBy_of_contains (h : region.contains key = true) : region.pushedOutBy key = [] :=
  if_pos h

theorem pushedOutBy_of_new (h : region.contains key = false) :
    region.pushedOutBy key = (region.order ++ [key]).take region.excess :=
  if_neg (by simp [h])

theorem Lists.write (h : Lists region.order region.entries) (key : CollectionKey)
    (bytes : List UInt8) :
    Lists (region.write key bytes).order (region.write key bytes).entries := by
  have hcontains (other : CollectionKey) :
      (region.write key bytes).entries.contains other = true ↔
        key = other ∨ region.entries.contains other = true := by
    by_cases hkey : key = other
    · subst hkey
      simp [Region.write, SortedMap.contains]
    · simp [Region.write, SortedMap.contains, SortedMap.get?_insert_of_ne _ _ hkey, hkey]
  cases hfound : region.contains key with
  | true =>
    rw [order_write_of_contains hfound]
    refine ⟨h.nodup, fun other => ?_⟩
    rw [hcontains, h.mem_iff]
    exact ⟨Or.inr, fun hother => hother.elim (fun heq => heq ▸ hfound) id⟩
  | false =>
    rw [order_write_of_new hfound]
    refine ⟨?_, fun other => ?_⟩
    · have hnotMem : key ∉ region.order := by
        rw [h.mem_iff, ← contains, hfound]
        exact Bool.false_ne_true
      exact List.nodup_append_comm.mp (List.nodup_cons.mpr ⟨hnotMem, h.nodup⟩)
    · rw [hcontains, List.mem_append, h.mem_iff, List.mem_singleton]
      exact or_comm.trans (or_congr_left eq_comm)

/-- What a write leaves of the order and of the entries, and what it pushes out. -/
structure Puts (region : Region) (key : CollectionKey) (bytes : List UInt8) (next : Region) :
    Prop where
  order : (region.write key bytes).order = region.pushedOutBy key ++ next.order
  entries : next.entries =
    (region.pushedOutBy key).foldl SortedMap.erase (region.entries.insert key bytes)
  capacity : next.capacity = region.capacity
  offline : next.offline = region.offline

theorem Lists.fitCapacity_eq (h : Lists region.order region.entries)
    (hnew : region.contains key = false) (bytes : List UInt8) :
    (region.write key bytes).fitCapacity =
      { region with
        order := (region.order ++ [key]).drop region.excess
        entries := ((region.order ++ [key]).take region.excess).foldl SortedMap.erase
          (region.entries.insert key bytes) } := by
  have hwritten := h.write key bytes
  have horder : (region.write key bytes).order = region.order ++ [key] := order_write_of_new hnew
  rw [horder] at hwritten
  have hlength : (region.order ++ [key]).length = region.size + 1 := by
    rw [List.length_append, h.length_eq]
    rfl
  have hcapacity : (region.write key bytes).capacity = region.capacity := rfl
  cases hlimit : region.capacity with
  | none => simp [fitCapacity, excess, Region.write, hlimit, hnew]
  | some limit =>
    rw [fitCapacity, excess, hcapacity, hlimit]
    simp only [horder, hwritten.pushOut_eq, hlength]
    rfl

theorem Lists.put_eq (h : Lists region.order region.entries) (hon : region.offline = false)
    (key : CollectionKey) (bytes : List UInt8) :
    ∃ next, region.put key bytes = .ok next ∧ region.Puts key bytes next := by
  rw [put, checkOnline_eq_ok hon]
  cases hfound : region.contains key with
  | true =>
    have hgone := pushedOutBy_of_contains hfound
    exact ⟨_, rfl, by rw [hgone]; rfl, by rw [hgone]; rfl, rfl, rfl⟩
  | false =>
    refine ⟨_, rfl, ?_⟩
    have hgone := pushedOutBy_of_new hfound
    rw [h.fitCapacity_eq hfound bytes]
    refine ⟨?_, by rw [hgone], rfl, rfl⟩
    rw [order_write_of_new hfound, hgone, List.take_append_drop]

theorem Lists.evict_eq (h : Lists region.order region.entries) (hon : region.offline = false)
    (key : CollectionKey) :
    region.evict key = .ok (region.contains key,
      { region with
        entries := region.entries.erase key
        order := region.order.filter (· ≠ key) }) := by
  rw [evict, checkOnline_eq_ok hon]
  cases hfound : region.contains key with
  | true => rfl
  | false =>
    have hentries : region.entries.erase key = region.entries :=
      SortedMap.erase_of_none (SortedMap.contains_eq_false_iff.mp hfound)
    have horder : region.order.filter (· ≠ key) = region.order := by
      refine List.filter_eq_self.mpr fun other hother => decide_eq_true fun heq => ?_
      have hkey := (h.mem_iff key).mp (heq ▸ hother)
      rw [contains, hkey] at hfound
      cases hfound
    rw [hentries, horder]
    rfl

/-- A region that is offline refuses everything but entries that are put past its checks. -/
structure Refuses (region : Region) : Prop where
  get : ∀ key, region.get? key = .error (.unavailable "region offline")
  put : ∀ key bytes, region.put key bytes = .error (.unavailable "region offline")
  evict : ∀ key, region.evict key = .error (.unavailable "region offline")
  clear : region.clear = .error (.unavailable "region offline")

theorem refuses_of_offline (hoff : region.offline = true) : region.Refuses := by
  have hcheck : region.checkOnline = .error (.unavailable "region offline") := by
    rw [checkOnline, hoff]
    rfl
  constructor
  · intro key
    rw [get?, hcheck]
    rfl
  · intro key bytes
    rw [put, hcheck]
    rfl
  · intro key
    rw [evict, hcheck]
    rfl
  · rw [clear, hcheck]
    rfl

end Calls

end Region

namespace RegionCall

variable {region next : Region} {call : RegionCall} {key : CollectionKey} {bytes : List UInt8}

inductive Step (region : Region) : RegionCall → Region → Prop
  | idle (call : RegionCall) (next : Region) (hentries : next.entries = region.entries)
    (horder : next.order = region.order) (hcapacity : next.capacity = region.capacity)
    (hwrites : ∀ key bytes, ¬call.Writes key bytes region)
    (hremoves : ∀ key, ¬call.Removes key region) : Step region call next
  | put (key : CollectionKey) (bytes : List UInt8) (next : Region)
    (hon : region.offline = false) (hputs : region.Puts key bytes next) :
    Step region (.put key bytes) next
  | evict (key : CollectionKey) (hon : region.offline = false) :
    Step region (.evict key)
      { region with
        entries := region.entries.erase key
        order := region.order.filter (· ≠ key) }
  | clear (hon : region.offline = false) :
    Step region .clear { region with entries := ∅, order := [] }
  | inject (key : CollectionKey) (bytes : List UInt8) :
    Step region (.inject key bytes) (region.write key bytes)

theorem after_of_offline (hoff : region.offline = true)
    (hinject : ∀ key bytes, call ≠ .inject key bytes)
    (hoffline : ∀ offline, call ≠ .setOffline offline) : call.after region = region := by
  have hrefuses := Region.refuses_of_offline hoff
  cases call with
  | get key => rfl
  | put key bytes =>
    rw [after, hrefuses.put]
    rfl
  | evict key =>
    rw [after, hrefuses.evict]
    rfl
  | clear =>
    rw [after, hrefuses.clear]
    rfl
  | inject key bytes => exact absurd rfl (hinject key bytes)
  | setOffline offline => exact absurd rfl (hoffline offline)

theorem step_offline (hoff : region.offline = true) (call : RegionCall) :
    Step region call (call.after region) := by
  have hremoves (key : CollectionKey) : ¬call.Removes key region := by
    rintro ⟨hon, _⟩
    rw [hoff] at hon
    cases hon
  cases call with
  | inject key bytes => exact .inject key bytes
  | setOffline offline => exact .idle _ _ rfl rfl rfl (by simp [Writes]) hremoves
  | get key | put key bytes | evict key | clear =>
    rw [after_of_offline hoff (by simp) (by simp)]
    exact .idle _ _ rfl rfl rfl (by simp [Writes, hoff]) hremoves

theorem step_after (h : Region.Lists region.order region.entries) (call : RegionCall) :
    Step region call (call.after region) := by
  cases hoff : region.offline with
  | true => exact step_offline hoff call
  | false =>
    cases call with
    | inject key bytes => exact .inject key bytes
    | get key => exact .idle _ _ rfl rfl rfl (by simp [Writes]) (by simp [Removes])
    | setOffline offline => exact .idle _ _ rfl rfl rfl (by simp [Writes]) (by simp [Removes])
    | put key bytes =>
      obtain ⟨next, hput, hputs⟩ := h.put_eq hoff key bytes
      rw [after, hput]
      exact .put key bytes next hoff hputs
    | evict key =>
      rw [after, h.evict_eq hoff]
      exact .evict key hoff
    | clear =>
      rw [after, Region.clear, Region.checkOnline_eq_ok hoff]
      exact .clear hoff

namespace Step

variable (step : Step region call next)
include step

theorem capacity_eq : next.capacity = region.capacity := by
  cases step with
  | idle call next hentries horder hcapacity => exact hcapacity
  | put key bytes next hon hputs => exact hputs.capacity
  | evict key hon => rfl
  | clear hon => rfl
  | inject key bytes => rfl

theorem lists (h : Region.Lists region.order region.entries) :
    Region.Lists next.order next.entries := by
  cases step with
  | idle call next hentries horder =>
    rw [hentries, horder]
    exact h
  | put key bytes next hon hputs =>
    have hwritten := h.write key bytes
    rw [hputs.order] at hwritten
    rw [hputs.entries]
    exact hwritten.erase_append
  | evict key hon => exact h.filter key
  | clear hon => exact .empty
  | inject key bytes => exact h.write key bytes

/-- A call leaves keys where they are, and can put one after them that was not there. -/
theorem order_sublist :
    next.order.Sublist region.order ∨
      ∃ key, call.Adds key region ∧ next.order.Sublist (region.order ++ [key]) := by
  have hwrite {key : CollectionKey} {bytes : List UInt8}
      (hwrites : call.Writes key bytes region)
      (hnext : next.order.Sublist (region.write key bytes).order) :
      next.order.Sublist region.order ∨
        ∃ key, call.Adds key region ∧ next.order.Sublist (region.order ++ [key]) := by
    cases hfound : region.contains key with
    | true => exact Or.inl (by rwa [Region.order_write_of_contains hfound] at hnext)
    | false =>
      rw [Region.order_write_of_new hfound] at hnext
      exact Or.inr ⟨key, ⟨hfound, bytes, hwrites⟩, hnext⟩
  cases step with
  | idle call next hentries horder => exact Or.inl (horder ▸ List.Sublist.refl _)
  | put key bytes next hon hputs =>
    exact hwrite (Or.inl ⟨rfl, hon⟩) (hputs.order ▸ List.sublist_append_right _ _)
  | evict key hon => exact Or.inl List.filter_sublist
  | clear hon => exact Or.inl (List.nil_sublist _)
  | inject key bytes => exact hwrite (Or.inr rfl) (List.Sublist.refl _)

theorem get?_eq_some_iff (key : CollectionKey) (bytes : List UInt8) :
    next.entries.get? key = some bytes ↔
      ¬call.Removes key region ∧
        (call.Writes key bytes region ∨
          (∀ other, ¬call.Writes key other region) ∧ region.entries.get? key = some bytes) := by
  cases step with
  | idle call next hentries _ _ hwrites hremoves => simp [hentries, hwrites, hremoves]
  | put k written next hon hputs =>
    have hentries : next.entries.get? key = some bytes ↔
        key ∉ region.pushedOutBy k ∧
          (region.write k written).entries.get? key = some bytes := by
      rw [hputs.entries, SortedMap.get?_foldl_erase_eq_some_iff]
      rfl
    rw [hentries, Region.get?_write_eq_some_iff]
    by_cases hkey : k = key
    · simp [Removes, Writes, hon, hkey]
    · simp [Removes, Writes, hon, hkey]
  | evict k hon =>
    by_cases hkey : k = key
    · simp [Removes, hon, hkey]
    · simp [Removes, Writes, hkey, SortedMap.get?_erase_of_ne _ hkey]
  | clear hon => simp [Removes, hon, EmptyCollection.emptyCollection]
  | inject k written =>
    rw [Region.get?_write_eq_some_iff]
    by_cases hkey : k = key
    · simp [Removes, Writes, hkey]
    · simp [Removes, Writes, hkey]

theorem length_le (h : Region.Lists region.order region.entries)
    (hcall : ∀ key bytes, call ≠ .inject key bytes) {limit : Nat}
    (hlimit : region.capacity = some limit) (hsize : region.order.length ≤ limit) :
    next.order.length ≤ limit := by
  cases step with
  | idle call next hentries horder =>
    rw [horder]
    exact hsize
  | put key bytes next hon hputs =>
    have horder := congrArg List.length hputs.order
    rw [List.length_append] at horder
    cases hfound : region.contains key with
    | true =>
      rw [Region.order_write_of_contains hfound] at horder
      omega
    | false =>
      have hexcess : region.excess = region.order.length + 1 - limit := by
        rw [Region.excess, hlimit, h.length_eq]
        rfl
      rw [Region.order_write_of_new hfound, Region.pushedOutBy_of_new hfound, List.length_take,
        List.length_append, List.length_singleton, hexcess] at horder
      omega
  | evict key hon => exact Nat.le_trans (List.length_filter_le _ _) hsize
  | clear hon => exact Nat.zero_le limit
  | inject key bytes => exact absurd rfl (hcall key bytes)

end Step

end RegionCall

namespace Region

/-- What can be said of a region after calls, from the calls alone. -/
structure Accounts (capacity : Option Nat) (calls : List RegionCall) (now : Region) : Prop where
  capacity_eq : now.capacity = capacity
  lists : Lists now.order now.entries
  added : ∀ key ∈ now.order, ∃ i, (empty capacity).LastAddedAt calls key i
  ordered : now.order.Pairwise fun older newer => ∃ i j, i < j ∧
    (empty capacity).LastAddedAt calls older i ∧ (empty capacity).LastAddedAt calls newer j
  entries : ∀ key bytes, now.entries.get? key = some bytes ↔
    (empty capacity).LastWritten calls key bytes
  size_le : (∀ call ∈ calls, ∀ key bytes, call ≠ .inject key bytes) →
    ∀ limit, capacity = some limit → now.size ≤ limit

theorem accounts_nil (capacity : Option Nat) : Accounts capacity [] (empty capacity) where
  capacity_eq := rfl
  lists := .empty
  added key hkey := absurd hkey List.not_mem_nil
  ordered := List.Pairwise.nil
  entries key bytes := by
    refine ⟨nofun, ?_⟩
    rintro ⟨i, hwrites, _⟩
    exact absurd hwrites.lt (Nat.not_lt_zero i)
  size_le _ limit _ := Nat.zero_le limit

namespace Accounts

variable {capacity : Option Nat} {calls : List RegionCall}
variable (h : Accounts capacity calls ((empty capacity).runAll calls)) (call : RegionCall)
include h

theorem lastAddedAt_stays {key : CollectionKey}
    (hkey : key ∈ ((empty capacity).runAll calls).order) {i : Nat}
    (hi : (empty capacity).LastAddedAt calls key i) :
    (empty capacity).LastAddedAt (calls ++ [call]) key i := by
  refine hi.snoc fun hadds => ?_
  have hfound : ((empty capacity).runAll calls).contains key = true :=
    (h.lists.mem_iff key).mp hkey
  rw [hadds.1] at hfound
  cases hfound

theorem added_before {key : CollectionKey} (hkey : key ∈ ((empty capacity).runAll calls).order) :
    ∃ i < calls.length, (empty capacity).LastAddedAt (calls ++ [call]) key i := by
  obtain ⟨i, hi⟩ := h.added key hkey
  exact ⟨i, hi.lt, h.lastAddedAt_stays call hkey hi⟩

theorem ordered_before :
    ((empty capacity).runAll calls).order.Pairwise fun older newer =>
      ∃ i j, i < j ∧ (empty capacity).LastAddedAt (calls ++ [call]) older i ∧
        (empty capacity).LastAddedAt (calls ++ [call]) newer j := by
  refine h.ordered.imp_of_mem fun {older newer} holder hnewer hlast => ?_
  obtain ⟨i, j, hij, hi, hj⟩ := hlast
  exact ⟨i, j, hij, h.lastAddedAt_stays call holder hi, h.lastAddedAt_stays call hnewer hj⟩

variable {call} {next : Region} (step : call.Step ((empty capacity).runAll calls) next)
include step

theorem added_step {key : CollectionKey} (hkey : key ∈ next.order) :
    ∃ i, (empty capacity).LastAddedAt (calls ++ [call]) key i := by
  rcases step.order_sublist with hnext | ⟨new, hnew, hnext⟩
  · exact (h.added_before call (hnext.subset hkey)).imp fun i hi => hi.2
  · rcases List.mem_append.mp (hnext.subset hkey) with hkey | hkey
    · exact (h.added_before call hkey).imp fun i hi => hi.2
    · obtain rfl := List.mem_singleton.mp hkey
      exact ⟨_, lastAddedAt_snoc hnew⟩

theorem ordered_step :
    next.order.Pairwise fun older newer =>
      ∃ i j, i < j ∧ (empty capacity).LastAddedAt (calls ++ [call]) older i ∧
        (empty capacity).LastAddedAt (calls ++ [call]) newer j := by
  have hordered := h.ordered_before call
  rcases step.order_sublist with hnext | ⟨new, hnew, hnext⟩
  · exact hordered.sublist hnext
  · refine List.Pairwise.sublist hnext (List.pairwise_append.mpr
      ⟨hordered, List.pairwise_singleton _ _, fun older holder newer hnewer => ?_⟩)
    obtain rfl := List.mem_singleton.mp hnewer
    obtain ⟨i, hi, hlast⟩ := h.added_before call holder
    exact ⟨i, _, hi, hlast, lastAddedAt_snoc hnew⟩

theorem size_le_step (hcalls : ∀ c ∈ calls ++ [call], ∀ key bytes, c ≠ .inject key bytes)
    {limit : Nat} (hlimit : capacity = some limit) : next.size ≤ limit := by
  have hsize := h.size_le (fun c hc => hcalls c (List.mem_append_left _ hc)) limit hlimit
  have hcall := hcalls call (List.mem_append_right _ List.mem_cons_self)
  have hlengths := (step.lists h.lists).length_eq
  rw [size, ← h.lists.length_eq] at hsize
  rw [size, ← hlengths]
  exact step.length_le h.lists hcall (h.capacity_eq.trans hlimit) hsize

omit step in
theorem snoc : Accounts capacity (calls ++ [call]) ((empty capacity).runAll (calls ++ [call])) := by
  rw [runAll_snoc]
  have step := RegionCall.step_after h.lists call
  exact
    { capacity_eq := step.capacity_eq.trans h.capacity_eq
      lists := step.lists h.lists
      added := fun _ hkey => h.added_step step hkey
      ordered := h.ordered_step step
      entries := fun key bytes => by rw [step.get?_eq_some_iff, lastWritten_snoc, h.entries]
      size_le := fun hcalls _ hlimit => h.size_le_step step hcalls hlimit }

end Accounts

theorem accounts_runAll (capacity : Option Nat) (calls : List RegionCall) :
    Accounts capacity calls ((empty capacity).runAll calls) := by
  -- From the end of the run: the last call decides what was last added and last written.
  induction calls using List.reverseRecOn with
  | nil => exact accounts_nil capacity
  | append_singleton calls call ih => exact ih.snoc

/-- What can be said of a region after calls, with its answers and what it does with a write. A
write of a new key leaves the newest keys, as many as fit. -/
structure KeepsBooks (capacity : Option Nat) (calls : List RegionCall) (now : Region) : Prop
    extends Accounts capacity calls now where
  get : now.offline = false → ∀ key, ∃ found, now.get? key = .ok found ∧
    ∀ bytes, found = some bytes ↔ (empty capacity).LastWritten calls key bytes
  put_new : now.offline = false → ∀ key bytes, now.contains key = false → ∃ next,
    now.put key bytes = .ok next ∧
      now.order ++ [key] = now.pushedOutBy key ++ next.order ∧
      next.entries =
        (now.pushedOutBy key).foldl SortedMap.erase (now.entries.insert key bytes) ∧
      next.size = capacity.elim (now.size + 1) (min (now.size + 1)) ∧
      next.capacity = now.capacity ∧ next.offline = now.offline
  put_present : now.offline = false → ∀ key bytes, now.contains key = true →
    now.put key bytes = .ok { now with entries := now.entries.insert key bytes }
  refuses : now.offline = true → now.Refuses
  unchanged : now.offline = true → ∀ call : RegionCall, (∀ key bytes, call ≠ .inject key bytes) →
    (∀ offline, call ≠ .setOffline offline) → call.after now = now

theorem Puts.size_eq {region next : Region} {key : CollectionKey} {bytes : List UInt8}
    (h : Lists region.order region.entries) (hputs : region.Puts key bytes next)
    (hnew : region.contains key = false) :
    next.size = region.capacity.elim (region.size + 1) (min (region.size + 1)) := by
  have hlists := h.write key bytes
  rw [hputs.order] at hlists
  have hnext : next.order.length = next.size := by
    rw [size, hputs.entries]
    exact hlists.erase_append.length_eq
  have horder := congrArg List.length hputs.order
  rw [order_write_of_new hnew, pushedOutBy_of_new hnew, List.length_append, List.length_append,
    List.length_take, List.length_append, List.length_singleton, h.length_eq, hnext] at horder
  change region.size + 1 = min region.excess (region.size + 1) + next.size at horder
  cases hlimit : region.capacity with
  | none =>
    have hexcess : region.excess = 0 := by rw [excess, hlimit]
    rw [Option.elim_none]
    omega
  | some limit =>
    have hexcess : region.excess = region.size + 1 - limit := by rw [excess, hlimit]
    rw [Option.elim_some]
    omega

/-- A region keeps its books, whatever it is called for. -/
theorem keepsBooks_runAll (capacity : Option Nat) (calls : List RegionCall) :
    KeepsBooks capacity calls ((empty capacity).runAll calls) := by
  have h := accounts_runAll capacity calls
  refine
    { h with
      get := fun hon key => ⟨_, ?_, h.entries key⟩
      put_new := fun hon key bytes hnew => ?_
      put_present := fun hon key bytes hfound => ?_
      refuses := refuses_of_offline
      unchanged := fun hoff _ => RegionCall.after_of_offline hoff }
  · rw [get?, checkOnline_eq_ok hon]
    rfl
  · obtain ⟨next, hput, hputs⟩ := h.lists.put_eq hon key bytes
    have horder := hputs.order
    rw [order_write_of_new hnew] at horder
    have hsize := hputs.size_eq h.lists hnew
    rw [h.capacity_eq] at hsize
    exact ⟨next, hput, horder, hputs.entries, hsize, hputs.capacity, hputs.offline⟩
  · rw [put, checkOnline_eq_ok hon]
    simp only [hfound, Region.write, if_true]
    rfl

/-- A key that is written again keeps its place, so it is still the first to be pushed out. -/
example :
    let key (byte : UInt8) : CollectionKey := ⟨⟨"Order.notes"⟩, ⟨.replicate 16 byte, rfl⟩⟩
    ((empty (some 2)).runAll
      [.put (key 1) [1], .put (key 2) [2], .put (key 1) [3], .put (key 3) [4]]).order =
        [key 2, key 3] := by
  decide

end Region

end LazyCollections
