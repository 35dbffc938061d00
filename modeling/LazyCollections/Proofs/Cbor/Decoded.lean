import LazyCollections.Proofs.Cbor.Values
import LazyCollections.Proofs.Value.Ascending

/-!
# What the decoder accepts

The bytes may have wider heads than needed, open strings, arrays and maps, and entries in any order.
The reader takes at least one byte for each item and nothing it reads is longer than the bytes, so
what becomes a value fits memory and is nested no deeper than the reader goes. The entries of its
maps come out in key order. So it can be encoded, and the new bytes are decoded to the same value.
-/

namespace LazyCollections

set_option autoImplicit false

open Cbor Text

namespace Value

theorem ofItems_eq_ok {items : List Item} {vs : List Value} :
    ofItems items = .ok vs ↔ List.Forall₂ (fun i v => ofItem i = .ok v) items vs := by
  induction items generalizing vs with
  | nil =>
    rw [ofItems, List.forall₂_nil_left_iff]
    exact ⟨fun h => (Except.ok.inj h).symm, fun h => congrArg Except.ok h.symm⟩
  | cons i items ih =>
    rw [ofItems, bind_eq_ok]
    constructor
    · rintro ⟨v, hv, h⟩
      obtain ⟨rest, hrest, h⟩ := bind_eq_ok.mp h
      exact Except.ok.inj h ▸ .cons hv (ih.mp hrest)
    · intro h
      cases h with
      | @cons _ v _ rest hv hrest => exact ⟨v, hv, bind_eq_ok.mpr ⟨rest, ih.mpr hrest, rfl⟩⟩

theorem ofEntryItems_eq_ok {items : List (Item × Item)} {es : List (Value × Value)} :
    ofEntryItems items = .ok es ↔
      List.Forall₂ (fun i e => ofItem i.1 = .ok e.1 ∧ ofItem i.2 = .ok e.2) items es := by
  induction items generalizing es with
  | nil =>
    rw [ofEntryItems, List.forall₂_nil_left_iff]
    exact ⟨fun h => (Except.ok.inj h).symm, fun h => congrArg Except.ok h.symm⟩
  | cons i items ih =>
    rw [ofEntryItems, bind_eq_ok]
    constructor
    · rintro ⟨k, hk, h⟩
      obtain ⟨v, hv, h⟩ := bind_eq_ok.mp h
      obtain ⟨rest, hrest, h⟩ := bind_eq_ok.mp h
      exact Except.ok.inj h ▸ .cons ⟨hk, hv⟩ (ih.mp hrest)
    · intro h
      cases h with
      | @cons _ e _ rest he hrest =>
        exact ⟨e.1, he.1, bind_eq_ok.mpr ⟨e.2, he.2, bind_eq_ok.mpr ⟨rest, ih.mpr hrest, rfl⟩⟩⟩

theorem ofInteger_eq_ok {n : Int} {v : Value} (h : ofInteger n = .ok v) :
    ∃ m, v = integer m := by
  unfold ofInteger at h
  split at h
  · exact ⟨_, (Except.ok.inj h).symm⟩
  · cases h

theorem ofDistinctEntries_eq_ok {es : List (Value × Value)} {v : Value}
    (h : ofDistinctEntries es = .ok v) :
    (es.map Prod.fst).Nodup ∧ v = map (sortEntries es) := by
  simp only [ofDistinctEntries] at h
  split at h
  next => cases h
  next hnone => exact ⟨repeated?_sortEntries_eq_none_iff.mp hnone, (Except.ok.inj h).symm⟩

mutual

theorem ascending_of_ofItem {item : Item} {v : Value} (h : ofItem item = .ok v) :
    v.Ascending := by
  cases item with
  | null => exact Except.ok.inj h ▸ trivial
  | bool b => exact Except.ok.inj h ▸ trivial
  | integer n =>
    obtain ⟨m, rfl⟩ := ofInteger_eq_ok h
    trivial
  | bytes bs => exact Except.ok.inj h ▸ trivial
  | text s => exact Except.ok.inj h ▸ trivial
  | array items =>
    rw [ofItem] at h
    obtain ⟨vs, hitems, h⟩ := bind_eq_ok.mp h
    exact Except.ok.inj h ▸ ascendingItems_of_ofItems (ofItems_eq_ok.mp hitems)
  | map entries =>
    rw [ofItem] at h
    obtain ⟨es, hentries, h⟩ := bind_eq_ok.mp h
    obtain ⟨hdistinct, rfl⟩ := ofDistinctEntries_eq_ok h
    exact ascending_map_sortEntries hdistinct
      (ascendingEntries_of_ofEntryItems (ofEntryItems_eq_ok.mp hentries))
  | tag number content => cases h
  | float => cases h

theorem ascendingItems_of_ofItems {items : List Item} {vs : List Value}
    (h : List.Forall₂ (fun i v => ofItem i = .ok v) items vs) : AscendingItems vs := by
  cases h with
  | nil => trivial
  | cons hhead htail => exact ⟨ascending_of_ofItem hhead, ascendingItems_of_ofItems htail⟩

theorem ascendingEntries_of_ofEntryItems {items : List (Item × Item)} {es : List (Value × Value)}
    (h : List.Forall₂ (fun i e => ofItem i.1 = .ok e.1 ∧ ofItem i.2 = .ok e.2) items es) :
    AscendingEntries es := by
  cases h with
  | nil => trivial
  | @cons i e _ _ hhead htail =>
    obtain ⟨i, j⟩ := i
    exact ⟨ascending_of_ofItem hhead.1, ascending_of_ofItem hhead.2,
      ascendingEntries_of_ofEntryItems htail⟩

end

/-- A value that fits memory and is nested at most `limit` deep. -/
def Fits (limit : Nat) (v : Value) : Prop :=
  v.Addressable ∧ v.depth ≤ limit

theorem fits_array {limit : Nat} {vs : List Value} (hlength : vs.length < UInt64.size)
    (h : ∀ v ∈ vs, v.Fits limit) : (array vs).Fits (limit + 1) := by
  have hparts : AddressableItems vs ∧ depthOfItems vs ≤ limit := by
    clear hlength
    induction vs with
    | nil => exact ⟨trivial, Nat.zero_le _⟩
    | cons v vs ih =>
      obtain ⟨hv, hvs⟩ := List.forall_mem_cons.mp h
      exact ⟨⟨hv.1, (ih hvs).1⟩, Nat.max_le.mpr ⟨hv.2, (ih hvs).2⟩⟩
  exact ⟨⟨hlength, hparts.1⟩, Nat.succ_le_succ hparts.2⟩

theorem fits_map {limit : Nat} {es : List (Value × Value)} (hlength : es.length < UInt64.size)
    (h : ∀ e ∈ es, e.1.Fits limit ∧ e.2.Fits limit) : (map es).Fits (limit + 1) := by
  have hdepth : depthOfEntries es ≤ limit := by
    clear hlength
    induction es with
    | nil => exact Nat.zero_le _
    | cons e es ih =>
      obtain ⟨he, hes⟩ := List.forall_mem_cons.mp h
      exact Nat.max_le.mpr ⟨Nat.max_le.mpr ⟨he.1.2, he.2.2⟩, ih hes⟩
  have hparts := addressableEntries_iff.mpr fun e he => ⟨(h e he).1.1, (h e he).2.1⟩
  exact ⟨⟨hlength, hparts⟩, Nat.succ_le_succ hdepth⟩

end Value

namespace Cbor

/-- An item that becomes only values that fit. -/
def Item.Fits (limit : Nat) (item : Item) : Prop :=
  ∀ v, Value.ofItem item = .ok v → v.Fits limit

theorem Item.fits_integer (limit : Nat) (n : Int) : (integer n).Fits limit := by
  intro v hv
  obtain ⟨m, rfl⟩ := Value.ofInteger_eq_ok hv
  exact ⟨trivial, Nat.zero_le _⟩

theorem Item.fits_bytes {limit : Nat} {bs : List UInt8} (h : bs.length < UInt64.size) :
    (bytes bs).Fits limit := by
  intro v hv
  exact Except.ok.inj hv ▸ ⟨h, Nat.zero_le _⟩

theorem Item.fits_text {limit : Nat} {s : String} (h : (utf8 s).length < UInt64.size) :
    (text s).Fits limit := by
  intro v hv
  exact Except.ok.inj hv ▸ ⟨h, Nat.zero_le _⟩

theorem Item.fits_of_ofSimple? {limit code : Nat} {item : Item}
    (h : Item.ofSimple? code = some item) : item.Fits limit := by
  intro v hv
  unfold Item.ofSimple? at h
  split at h
  · exact Except.ok.inj (Option.some.inj h ▸ hv) ▸ ⟨trivial, Nat.zero_le _⟩
  · exact Except.ok.inj (Option.some.inj h ▸ hv) ▸ ⟨trivial, Nat.zero_le _⟩
  · exact Except.ok.inj (Option.some.inj h ▸ hv) ▸ ⟨trivial, Nat.zero_le _⟩
  · exact Except.ok.inj (Option.some.inj h ▸ hv) ▸ ⟨trivial, Nat.zero_le _⟩
  · cases h

theorem Item.fits_tag (limit number : Nat) (content : Item) : (tag number content).Fits limit := by
  intro v hv
  cases hv

theorem Item.fits_float (limit : Nat) : float.Fits limit := by
  intro v hv
  cases hv

theorem Item.fits_array {limit : Nat} {items : List Item} (hlength : items.length < UInt64.size)
    (h : ∀ i ∈ items, i.Fits limit) : (array items).Fits (limit + 1) := by
  intro v hv
  rw [Value.ofItem] at hv
  obtain ⟨vs, hvs, hv⟩ := bind_eq_ok.mp hv
  have hvs := Value.ofItems_eq_ok.mp hvs
  rw [hvs.length_eq] at hlength
  exact Except.ok.inj hv ▸ Value.fits_array hlength (forall_mem_of_forall₂ hvs h)

theorem Item.fits_map {limit : Nat} {entries : List (Item × Item)}
    (hlength : entries.length < UInt64.size)
    (h : ∀ e ∈ entries, e.1.Fits limit ∧ e.2.Fits limit) : (map entries).Fits (limit + 1) := by
  intro v hv
  rw [Value.ofItem] at hv
  obtain ⟨es, hes, hv⟩ := bind_eq_ok.mp hv
  obtain ⟨-, rfl⟩ := Value.ofDistinctEntries_eq_ok hv
  have hes := Value.ofEntryItems_eq_ok.mp hes
  have hparts : ∀ e ∈ es, e.1.Fits limit ∧ e.2.Fits limit :=
    forall_mem_of_forall₂ hes fun i hi e he => ⟨(h i hi).1 e.1 he.1, (h i hi).2 e.2 he.2⟩
  have hsorted : (Value.sortEntries es).length = es.length := (Value.sortEntries_perm es).length_eq
  refine Value.fits_map (by rw [hsorted, ← hes.length_eq]; exact hlength) fun e he => ?_
  exact hparts e ((Value.sortEntries_perm es).mem_iff.mp he)

variable {α β : Type}

/-- From bytes that fit memory the reader takes at least one, and what it reads satisfies `P`. -/
def Reads (P : α → Prop) (read : Reader α) : Prop :=
  ∀ bytes a rest, bytes.length < UInt64.size → read bytes = some (a, rest) →
    rest.length < bytes.length ∧ P a

/-- The same of what stands after a head and may take no byte. -/
def Follows (P : α → Prop) (read : Reader α) : Prop :=
  ∀ bytes a rest, bytes.length < UInt64.size → read bytes = some (a, rest) →
    rest.length ≤ bytes.length ∧ P a

theorem Reads.follows {P : α → Prop} {read : Reader α} (h : Reads P read) : Follows P read := by
  intro bytes a rest hsize hread
  obtain ⟨hrest, hP⟩ := h bytes a rest hsize hread
  exact ⟨Nat.le_of_lt hrest, hP⟩

theorem Follows.map {P : α → Prop} {Q : β → Prop} {read : Reader α} {f : α → β}
    (h : Follows P read) (hf : ∀ a, P a → Q (f a)) :
    Follows Q fun bytes => (read bytes).bind fun x => pure (f x.1, x.2) := by
  intro bytes b rest hsize hread
  obtain ⟨⟨a, left⟩, ha, hb⟩ := Option.bind_eq_some_iff.mp hread
  obtain ⟨rfl, rfl⟩ := Prod.mk.inj (Option.some.inj hb)
  obtain ⟨hrest, hP⟩ := h bytes a left hsize ha
  exact ⟨hrest, hf a hP⟩

theorem follows_some {P : α → Prop} {a : α} (h : P a) :
    Follows P fun bytes => some (a, bytes) := by
  intro bytes b rest _ hread
  obtain ⟨rfl, rfl⟩ := Prod.mk.inj (Option.some.inj hread)
  exact ⟨Nat.le_refl _, h⟩

theorem follows_none {P : α → Prop} : Follows P (fun _ => none : Reader α) := by
  intro bytes a rest _ hread
  cases hread

theorem follows_ofOption {P : β → Prop} {found : Option α} {f : α → β}
    (h : ∀ a, found = some a → P (f a)) :
    Follows P fun bytes => found.bind fun a => pure (f a, bytes) := by
  cases found with
  | none => exact follows_none
  | some a => exact follows_some (h a rfl)

theorem Follows.mapSome {γ : Type} {P : α → Prop} {Q : γ → Prop} {read : Reader α}
    {f : α → Option β} {g : β → γ} (h : Follows P read)
    (hf : ∀ a b, P a → f a = some b → Q (g b)) :
    Follows Q fun bytes => (read bytes).bind fun x => (f x.1).bind fun b => pure (g b, x.2) := by
  intro bytes c rest hsize hread
  obtain ⟨⟨a, left⟩, ha, hc⟩ := Option.bind_eq_some_iff.mp hread
  obtain ⟨b, hb, hc⟩ := Option.bind_eq_some_iff.mp hc
  obtain ⟨rfl, rfl⟩ := Prod.mk.inj (Option.some.inj hc)
  obtain ⟨hrest, hP⟩ := h bytes a left hsize ha
  exact ⟨hrest, hf a b hP hb⟩

theorem Follows.inside {Q : β → Prop} {inner : Option (Reader α)} {next : Reader α → Reader β}
    (h : ∀ read ∈ inner, Follows Q (next read)) :
    Follows Q fun bytes => inner.bind fun read => next read bytes := by
  cases inner with
  | none => exact follows_none
  | some read => exact h read rfl

theorem length_of_takeBytes {n : Nat} {bytes content rest : List UInt8}
    (h : takeBytes n bytes = some (content, rest)) :
    content.length + rest.length = bytes.length := by
  obtain ⟨-, rfl⟩ := takeBytes_eq_some_iff.mp h
  exact List.length_append.symm

theorem follows_takeBytes (n : Nat) :
    Follows (fun content => content.length < UInt64.size) (takeBytes n) := by
  intro bytes content rest hsize h
  have hlength := length_of_takeBytes h
  exact ⟨by omega, by omega⟩

theorem length_of_readWide {major : Major} {width : Nat} {bytes rest : List UInt8} {head : Head}
    (h : readWide major width bytes = some (head, rest)) : rest.length ≤ bytes.length := by
  simp only [readWide, Option.bind_eq_bind, Option.bind_eq_some_iff, Prod.exists] at h
  obtain ⟨digits, left, htake, h⟩ := h
  have hlength := length_of_takeBytes htake
  have hrest : left = rest := by
    cases major <;> exact (Prod.mk.inj (Option.some.inj h)).2
  subst hrest
  omega

theorem length_of_readArgument {major : Major} {low : Nat} {bytes rest : List UInt8} {head : Head}
    (h : readArgument major low bytes = some (head, rest)) : rest.length ≤ bytes.length := by
  unfold readArgument at h
  split_ifs at h
  · have hrest : bytes = rest := by
      cases major <;> exact (Prod.mk.inj (Option.some.inj h)).2
    exact hrest ▸ Nat.le_refl _
  · exact length_of_readWide h
  · exact length_of_readWide h
  · exact length_of_readWide h
  · exact length_of_readWide h
  · exact (Prod.mk.inj (Option.some.inj h)).2 ▸ Nat.le_refl _
  · exact (Prod.mk.inj (Option.some.inj h)).2 ▸ Nat.le_refl _

theorem length_of_readHead {bytes rest : List UInt8} {head : Head}
    (h : readHead bytes = some (head, rest)) : rest.length < bytes.length := by
  cases bytes with
  | nil => cases h
  | cons b bytes => exact Nat.lt_succ_of_le (length_of_readArgument h)

theorem length_of_readChunks {major : Major} {fuel nesting : Nat} {bytes rest : List UInt8}
    {chunks : List (List UInt8)}
    (h : readChunks major fuel nesting bytes = some (chunks, rest)) :
    chunks.flatten.length + rest.length < bytes.length := by
  induction fuel generalizing nesting bytes chunks with
  | zero => cases h
  | succ fuel ih =>
    simp only [readChunks, Option.bind_eq_bind, Option.bind_eq_some_iff, Prod.exists] at h
    obtain ⟨head, left, hhead, h⟩ := h
    have hlength := length_of_readHead hhead
    cases head with
    | breakMark =>
      simp only at h
      split at h
      · obtain ⟨rfl, rfl⟩ := Prod.mk.inj (Option.some.inj h)
        simpa using hlength
      -- The break ends an open string inside this one, and the chunks go on.
      · exact Nat.lt_trans (ih h) hlength
    | openEnded m =>
      simp only at h
      split at h
      · exact Nat.lt_trans (ih h) hlength
      · cases h
    | item m n =>
      simp only at h
      split at h
      · simp only [Option.bind_eq_some_iff, Prod.exists] at h
        obtain ⟨chunk, left, htake, more, left, hmore, h⟩ := h
        obtain ⟨rfl, rfl⟩ := Prod.mk.inj (Option.some.inj h)
        have htake := length_of_takeBytes htake
        have hmore := ih hmore
        simp only [List.flatten_cons, List.length_append] at hlength htake hmore ⊢
        omega
      · cases h
    | simple code => cases h
    | float => cases h

theorem follows_readOpenString (major : Major) :
    Follows (fun chunks => chunks.flatten.length < UInt64.size) (readOpenString major) := by
  intro bytes chunks rest hsize h
  have hlength := length_of_readChunks h
  exact ⟨by omega, by omega⟩

theorem utf8ByteSize_join_of_mapM {chunks : List (List UInt8)} {texts : List String}
    (h : chunks.mapM ofUtf8? = some texts) :
    (String.join texts).utf8ByteSize = chunks.flatten.length := by
  induction chunks generalizing texts with
  | nil =>
    obtain rfl := Option.some.inj h
    rfl
  | cons chunk chunks ih =>
    simp only [List.mapM_cons, Option.bind_eq_bind, Option.bind_eq_some_iff] at h
    obtain ⟨text, htext, texts, htexts, h⟩ := h
    obtain rfl := Option.some.inj h
    rw [String.join_cons, String.utf8ByteSize_append, ih htexts, List.flatten_cons,
      List.length_append, ← length_utf8, ofUtf8?_eq_some_iff.mp htext]

theorem Reads.pair {P : α → Prop} {Q : β → Prop} {first : Reader α} {second : Reader β}
    (hfirst : Reads P first) (hsecond : Reads Q second) :
    Reads (fun p => P p.1 ∧ Q p.2) (readPair first second) := by
  intro bytes a rest hsize h
  simp only [readPair, Option.bind_eq_bind, Option.bind_eq_some_iff, Prod.exists] at h
  obtain ⟨x, left, hx, y, left', hy, h⟩ := h
  obtain ⟨rfl, rfl⟩ := Prod.mk.inj (Option.some.inj h)
  obtain ⟨hleft, hP⟩ := hfirst _ _ _ hsize hx
  obtain ⟨hrest, hQ⟩ := hsecond _ _ _ (Nat.lt_trans hleft hsize) hy
  exact ⟨Nat.lt_trans hrest hleft, hP, hQ⟩

section Lists

variable {P : α → Prop} {item : Reader α} (hitem : Reads P item)
include hitem

/-- As each item takes a byte, there are no more of them than bytes. -/
theorem Reads.length_many {n : Nat} {bytes rest : List UInt8} {as : List α}
    (hsize : bytes.length < UInt64.size) (h : readMany item n bytes = some (as, rest)) :
    as.length + rest.length ≤ bytes.length ∧ ∀ a ∈ as, P a := by
  induction n generalizing bytes as with
  | zero =>
    obtain ⟨rfl, rfl⟩ := Prod.mk.inj (Option.some.inj h)
    simp
  | succ n ih =>
    simp only [readMany, Option.bind_eq_bind, Option.bind_eq_some_iff, Prod.exists] at h
    obtain ⟨a, left, ha, more, left', hmore, h⟩ := h
    obtain ⟨rfl, rfl⟩ := Prod.mk.inj (Option.some.inj h)
    obtain ⟨hleft, hP⟩ := hitem _ _ _ hsize ha
    obtain ⟨hlength, hall⟩ := ih (Nat.lt_trans hleft hsize) hmore
    refine ⟨?_, List.forall_mem_cons.mpr ⟨hP, hall⟩⟩
    simp only [List.length_cons]
    omega

theorem Reads.length_untilBreak {fuel : Nat} {bytes rest : List UInt8} {as : List α}
    (hsize : bytes.length < UInt64.size) (h : readUntilBreak item fuel bytes = some (as, rest)) :
    as.length + rest.length < bytes.length ∧ ∀ a ∈ as, P a := by
  induction fuel generalizing bytes as with
  | zero => cases h
  | succ fuel ih =>
    rw [readUntilBreak] at h
    split at h
    next hhead =>
      obtain ⟨rfl, rfl⟩ := Prod.mk.inj (Option.some.inj h)
      simpa using length_of_readHead hhead
    next =>
      simp only [Option.bind_eq_bind, Option.bind_eq_some_iff, Prod.exists] at h
      obtain ⟨a, left, ha, more, left', hmore, h⟩ := h
      obtain ⟨rfl, rfl⟩ := Prod.mk.inj (Option.some.inj h)
      obtain ⟨hleft, hP⟩ := hitem _ _ _ hsize ha
      obtain ⟨hlength, hall⟩ := ih (Nat.lt_trans hleft hsize) hmore
      refine ⟨?_, List.forall_mem_cons.mpr ⟨hP, hall⟩⟩
      simp only [List.length_cons]
      omega

theorem Reads.many (n : Nat) :
    Follows (fun as => as.length < UInt64.size ∧ ∀ a ∈ as, P a) (readMany item n) := by
  intro bytes as rest hsize h
  obtain ⟨hlength, hall⟩ := hitem.length_many hsize h
  exact ⟨by omega, by omega, hall⟩

theorem Reads.openList :
    Follows (fun as => as.length < UInt64.size ∧ ∀ a ∈ as, P a) (readOpenList item) := by
  intro bytes as rest hsize h
  obtain ⟨hlength, hall⟩ := hitem.length_untilBreak hsize h
  exact ⟨by omega, by omega, hall⟩

end Lists

theorem length_of_readBigInteger? {tag : Nat} {bytes rest : List UInt8} {item : Item}
    (h : readBigInteger? tag bytes = some (some (item, rest))) (limit : Nat) :
    rest.length ≤ bytes.length ∧ item.Fits limit := by
  unfold readBigInteger? at h
  split at h
  · split at h
    next length left hhead =>
      have hleft := length_of_readHead hhead
      split at h
      · have h := Option.some.inj h
        simp only [Option.bind_eq_bind, Option.bind_eq_some_iff, Prod.exists] at h
        obtain ⟨digits, left', htake, h⟩ := h
        have htake := length_of_takeBytes htake
        split_ifs at h
        · obtain ⟨rfl, rfl⟩ := Prod.mk.inj (Option.some.inj h)
          exact ⟨by omega, Item.fits_integer _ _⟩
        · obtain ⟨rfl, rfl⟩ := Prod.mk.inj (Option.some.inj h)
          exact ⟨by omega, Item.fits_integer _ _⟩
        · obtain ⟨rfl, rfl⟩ := Prod.mk.inj (Option.some.inj h)
          exact ⟨by omega, Item.fits_tag _ _ _⟩
      · cases h
    next => cases h
  · cases h

theorem Item.fits_text_of_ofUtf8? {limit : Nat} {content : List UInt8} {s : String}
    (hlength : content.length < UInt64.size) (h : ofUtf8? content = some s) :
    (text s).Fits limit := by
  rw [← ofUtf8?_eq_some_iff.mp h] at hlength
  exact fits_text hlength

theorem Item.fits_text_of_mapM {limit : Nat} {chunks : List (List UInt8)} {texts : List String}
    (hlength : chunks.flatten.length < UInt64.size) (h : chunks.mapM ofUtf8? = some texts) :
    (text (String.join texts)).Fits limit := by
  rw [← utf8ByteSize_join_of_mapM h, ← length_utf8] at hlength
  exact fits_text hlength

section Contents

variable {limit : Nat} {inner : Option (Reader Item)}
variable (hinner : ∀ read ∈ inner, ∃ below, limit = below + 1 ∧ Reads (Item.Fits below) read)
include hinner

theorem follows_array (n : Nat) :
    Follows (Item.Fits limit) (readContent inner (.item .array n)) := by
  refine .inside fun read hread => ?_
  obtain ⟨below, rfl, hreads⟩ := hinner read hread
  exact (hreads.many n).map fun _ h => Item.fits_array h.1 h.2

theorem follows_openArray : Follows (Item.Fits limit) (readContent inner (.openEnded .array)) := by
  refine .inside fun read hread => ?_
  obtain ⟨below, rfl, hreads⟩ := hinner read hread
  exact hreads.openList.map fun _ h => Item.fits_array h.1 h.2

theorem follows_map (n : Nat) : Follows (Item.Fits limit) (readContent inner (.item .map n)) := by
  refine .inside fun read hread => ?_
  obtain ⟨below, rfl, hreads⟩ := hinner read hread
  exact ((hreads.pair hreads).many n).map fun _ h => Item.fits_map h.1 h.2

theorem follows_openMap : Follows (Item.Fits limit) (readContent inner (.openEnded .map)) := by
  refine .inside fun read hread => ?_
  obtain ⟨below, rfl, hreads⟩ := hinner read hread
  exact (hreads.pair hreads).openList.map fun _ h => Item.fits_map h.1 h.2

theorem follows_tag (number : Nat) :
    Follows (Item.Fits limit) (readContent inner (.item .tag number)) := by
  intro bytes item rest hsize h
  simp only [readContent] at h
  split at h
  next result hbig =>
    subst h
    exact length_of_readBigInteger? hbig limit
  next =>
    obtain ⟨read, hread, h⟩ := Option.bind_eq_some_iff.mp h
    obtain ⟨below, rfl, hreads⟩ := hinner read hread
    exact hreads.follows.map (fun content _ => Item.fits_tag _ number content) _ _ _ hsize h

theorem follows_readContent (head : Head) :
    Follows (Item.Fits limit) (readContent inner head) := by
  cases head with
  | item major n =>
    cases major with
    | unsigned => exact follows_some (Item.fits_integer _ _)
    | negative => exact follows_some (Item.fits_integer _ _)
    | bytes => exact (follows_takeBytes n).map fun _ => Item.fits_bytes
    | text => exact (follows_takeBytes n).mapSome fun _ _ => Item.fits_text_of_ofUtf8?
    | array => exact follows_array hinner n
    | map => exact follows_map hinner n
    | tag => exact follows_tag hinner n
    | simple => exact follows_none
  | openEnded major =>
    cases major with
    | bytes => exact (follows_readOpenString .bytes).map fun _ => Item.fits_bytes
    | text => exact (follows_readOpenString .text).mapSome fun _ _ => Item.fits_text_of_mapM
    | array => exact follows_openArray hinner
    | map => exact follows_openMap hinner
    | unsigned | negative | tag | simple => exact follows_none
  | simple code => exact follows_ofOption fun _ => Item.fits_of_ofSimple?
  | float => exact follows_some (Item.fits_float _)
  | breakMark => exact follows_none

theorem Reads.itemWith : Reads (Item.Fits limit) (readItemWith inner) := by
  intro bytes item rest hsize h
  obtain ⟨⟨head, left⟩, hhead, h⟩ := Option.bind_eq_some_iff.mp h
  have hleft := length_of_readHead hhead
  obtain ⟨hrest, hfits⟩ := follows_readContent hinner head _ _ _ (Nat.lt_trans hleft hsize) h
  exact ⟨Nat.lt_of_le_of_lt hrest hleft, hfits⟩

end Contents

theorem reads_readItem (limit : Nat) : Reads (Item.Fits limit) (readItem limit) := by
  induction limit with
  | zero => exact Reads.itemWith nofun
  | succ limit ih =>
    refine Reads.itemWith fun read hread => ⟨limit, rfl, ?_⟩
    exact Option.some.inj hread ▸ ih

end Cbor

namespace Value

theorem decode_eq_ok {bytes : List UInt8} {v : Value} (h : decode bytes = .ok v) :
    ∃ item, readItem depthLimit bytes = some (item, []) ∧ ofItem item = .ok v := by
  unfold decode at h
  split at h
  next => cases h
  next item hread => exact ⟨item, hread, h⟩
  next => cases h

/-- What the decoder accepts is in canonical form and can be encoded, and it comes back from the
new bytes. -/
theorem decode_canonical (bytes : List UInt8) (v : Value) (hsize : bytes.length < UInt64.size)
    (hdecode : decode bytes = .ok v) :
    v.Ascending ∧ ∃ again, v.encode = .ok again ∧ decode again = .ok v := by
  obtain ⟨item, hread, hv⟩ := decode_eq_ok hdecode
  obtain ⟨-, hfits⟩ := reads_readItem depthLimit bytes item [] hsize hread
  obtain ⟨haddressable, hdepth⟩ := hfits v hv
  have hascending := ascending_of_ofItem hv
  obtain ⟨again, hencode⟩ := (exists_encode_iff haddressable).mpr hascending.distinctKeys
  obtain ⟨hagain, -⟩ := decode_encode v again haddressable hdepth hencode
  rw [hascending.canonical_eq] at hagain
  exact ⟨hascending, again, hencode, hagain⟩

/-- An open map with entries in no order, the first under a map in no order. The second key is an
open text of two chunks, and the number after it has a head that is wider than needed. -/
def looseBytes : List UInt8 :=
  [0xbf, 0xa2, 0x61, 0x62, 1, 0x61, 0x61, 2, 0xf6, 0x7f, 0x61, 0x62, 0x60, 0xff, 0x18, 1, 0xff]

def strictValue : Value :=
  map [(text "b", integer 1), (map [(text "a", integer 2), (text "b", integer 1)], null)]

theorem decode_canonical_loose :
    looseBytes.length < UInt64.size ∧ decode looseBytes = .ok strictValue ∧
      strictValue.Ascending ∧
      ∃ again, strictValue.encode = .ok again ∧ decode again = .ok strictValue := by
  have hsize : looseBytes.length < UInt64.size := by decide
  have hdecode : decode looseBytes = .ok strictValue := rfl
  exact ⟨hsize, hdecode, decode_canonical looseBytes strictValue hsize hdecode⟩

end Value

end LazyCollections
