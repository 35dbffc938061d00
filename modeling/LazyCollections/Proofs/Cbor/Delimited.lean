import LazyCollections.Proofs.Cbor.Values

/-!
# Where an item ends

The reader of an item never looks at the bytes after it: with more bytes behind them, it reads the
same item from the same bytes and leaves the others. So no item begins like another one and ends
before it: a part of what was encoded holds no item, and what follows all of it is left over.
-/

namespace LazyCollections

set_option autoImplicit false

open Cbor Text

namespace Cbor

variable {α β : Type}

/-- More bytes behind those that were read change nothing about what is read. -/
def Delimited (read : Reader α) : Prop :=
  ∀ bytes a rest more, read bytes = some (a, rest) → read (bytes ++ more) = some (a, rest ++ more)

def NeedsHead (read : Reader α) : Prop :=
  ∀ bytes, readHead bytes = none → read bytes = none

theorem Delimited.bind {read : Reader α} {next : α → Reader β} (h : Delimited read)
    (hnext : ∀ a, Delimited (next a)) :
    Delimited fun bytes => (read bytes).bind fun x => next x.1 x.2 := by
  intro bytes b rest more hread
  obtain ⟨⟨a, left⟩, ha, hb⟩ := Option.bind_eq_some_iff.mp hread
  exact Option.bind_eq_some_iff.mpr ⟨_, h bytes a left more ha, hnext a left b rest more hb⟩

theorem delimited_some (a : α) : Delimited fun bytes => some (a, bytes) := by
  intro bytes b rest more h
  obtain ⟨rfl, rfl⟩ := Prod.mk.inj (Option.some.inj h)
  rfl

theorem delimited_none : Delimited (fun _ => none : Reader α) := by
  intro bytes a rest more h
  cases h

theorem Delimited.ite {c : Prop} [Decidable c] {first second : Reader α} (hfirst : Delimited first)
    (hsecond : Delimited second) :
    Delimited fun bytes => if c then first bytes else second bytes := by
  by_cases hc : c
  · simpa only [if_pos hc] using hfirst
  · simpa only [if_neg hc] using hsecond

theorem Delimited.map {read : Reader α} (h : Delimited read) (f : α → β) :
    Delimited fun bytes => (read bytes).bind fun x => pure (f x.1, x.2) :=
  h.bind fun a => delimited_some (f a)

theorem delimited_ofOption (found : Option α) (f : α → β) :
    Delimited fun bytes => found.bind fun a => pure (f a, bytes) := by
  cases found with
  | none => exact delimited_none
  | some a => exact delimited_some (f a)

theorem Delimited.mapSome {γ : Type} {read : Reader α} (h : Delimited read) (f : α → Option β)
    (g : β → γ) :
    Delimited fun bytes => (read bytes).bind fun x => (f x.1).bind fun b => pure (g b, x.2) :=
  h.bind fun a => delimited_ofOption (f a) g

theorem Delimited.inside {inner : Option (Reader α)} {next : Reader α → Reader β}
    (h : ∀ read ∈ inner, Delimited (next read)) :
    Delimited fun bytes => inner.bind fun read => next read bytes := by
  cases inner with
  | none => exact delimited_none
  | some read => exact h read rfl

theorem delimited_takeBytes (n : Nat) : Delimited (takeBytes n) := by
  intro bytes content rest more h
  obtain ⟨hlength, rfl⟩ := takeBytes_eq_some_iff.mp h
  rw [List.append_assoc]
  exact takeBytes_append hlength _

theorem delimited_readWide (major : Major) (width : Nat) : Delimited (readWide major width) := by
  intro bytes head rest more h
  simp only [readWide, Option.bind_eq_bind, Option.bind_eq_some_iff, Prod.exists] at h ⊢
  obtain ⟨digits, left, htake, h⟩ := h
  refine ⟨digits, left ++ more, delimited_takeBytes _ _ _ _ more htake, ?_⟩
  cases major <;> exact delimited_some _ _ _ _ more h

theorem delimited_readArgument (major : Major) (low : Nat) :
    Delimited (readArgument major low) := by
  have hwide := delimited_readWide major
  have hopen : Delimited fun bytes =>
      if major = .simple then some (Head.breakMark, bytes)
      else if major.canStayOpen then some (.openEnded major, bytes) else none :=
    (delimited_some _).ite ((delimited_some _).ite delimited_none)
  unfold readArgument
  refine Delimited.ite ?_ ((hwide 1).ite ((hwide 2).ite ((hwide 4).ite ((hwide 8).ite
    (hopen.ite delimited_none)))))
  cases major <;> exact delimited_some _

theorem delimited_readHead : Delimited readHead := by
  intro bytes head rest more h
  cases bytes with
  | nil => cases h
  | cons b bytes => exact delimited_readArgument _ _ _ _ _ more h

theorem readChunks_append {major : Major} {fuel enough nesting : Nat}
    {bytes rest : List UInt8} {chunks : List (List UInt8)} (hfuel : fuel ≤ enough)
    (h : readChunks major fuel nesting bytes = some (chunks, rest)) (more : List UInt8) :
    readChunks major enough nesting (bytes ++ more) = some (chunks, rest ++ more) := by
  induction fuel generalizing enough nesting bytes chunks with
  | zero => cases h
  | succ fuel ih =>
    obtain ⟨enough, rfl⟩ : ∃ n, enough = n + 1 := ⟨enough - 1, by omega⟩
    have hfuel : fuel ≤ enough := by omega
    simp only [readChunks, Option.bind_eq_bind, Option.bind_eq_some_iff, Prod.exists] at h ⊢
    obtain ⟨head, left, hhead, h⟩ := h
    refine ⟨head, left ++ more, delimited_readHead _ _ _ more hhead, ?_⟩
    cases head with
    | breakMark =>
      simp only at h ⊢
      split_ifs at h ⊢
      · exact delimited_some _ _ _ _ more h
      · exact ih hfuel h
    | openEnded m =>
      simp only at h ⊢
      split_ifs at h ⊢
      exact ih hfuel h
    | item m n =>
      simp only at h ⊢
      split_ifs at h ⊢
      · simp only [Option.bind_eq_some_iff, Prod.exists] at h ⊢
        obtain ⟨chunk, left', htake, others, left'', hothers, h⟩ := h
        obtain ⟨rfl, rfl⟩ := Prod.mk.inj (Option.some.inj h)
        exact ⟨chunk, left' ++ more, delimited_takeBytes _ _ _ _ more htake, others,
          left'' ++ more, ih hfuel hothers, rfl⟩
    | simple code => cases h
    | float => cases h

theorem delimited_readOpenString (major : Major) : Delimited (readOpenString major) := by
  intro bytes chunks rest more h
  have hfuel : bytes.length + 1 ≤ (bytes ++ more).length + 1 := by
    rw [List.length_append]
    omega
  exact readChunks_append hfuel h more

theorem Delimited.pair {first : Reader α} {second : Reader β} (hfirst : Delimited first)
    (hsecond : Delimited second) : Delimited (readPair first second) :=
  hfirst.bind fun _ => hsecond.bind fun _ => delimited_some _

theorem NeedsHead.pair {first : Reader α} (hfirst : NeedsHead first) (second : Reader β) :
    NeedsHead (readPair first second) := by
  intro bytes h
  rw [readPair, hfirst bytes h]
  rfl

theorem NeedsHead.exists_head {read : Reader α} (h : NeedsHead read) {bytes : List UInt8}
    {x : α × List UInt8} (hread : read bytes = some x) :
    ∃ head rest, readHead bytes = some (head, rest) := by
  cases hhead : readHead bytes with
  | none =>
    rw [h bytes hhead] at hread
    cases hread
  | some y => exact ⟨y.1, y.2, rfl⟩

theorem Delimited.many {item : Reader α} (hitem : Delimited item) (n : Nat) :
    Delimited (readMany item n) := by
  induction n with
  | zero => exact delimited_some []
  | succ n ih => exact hitem.bind fun _ => ih.bind fun _ => delimited_some _

/-- A break is told from an item by its head, which more bytes do not change. -/
theorem Delimited.untilBreak {item : Reader α} (hitem : Delimited item) (hhead : NeedsHead item)
    {fuel enough : Nat} {bytes rest : List UInt8} {as : List α} (hfuel : fuel ≤ enough)
    (h : readUntilBreak item fuel bytes = some (as, rest)) (more : List UInt8) :
    readUntilBreak item enough (bytes ++ more) = some (as, rest ++ more) := by
  induction fuel generalizing enough bytes as with
  | zero => cases h
  | succ fuel ih =>
    obtain ⟨enough, rfl⟩ : ∃ n, enough = n + 1 := ⟨enough - 1, by omega⟩
    rw [readUntilBreak] at h
    split at h
    next left hbreak =>
      rw [readUntilBreak, delimited_readHead _ _ _ more hbreak]
      exact delimited_some _ _ _ _ more h
    next hother =>
      simp only [Option.bind_eq_bind, Option.bind_eq_some_iff, Prod.exists] at h
      obtain ⟨a, left, ha, others, left', hothers, h⟩ := h
      obtain ⟨rfl, rfl⟩ := Prod.mk.inj (Option.some.inj h)
      obtain ⟨head, after, hfound⟩ := hhead.exists_head ha
      have hne : head ≠ .breakMark := by
        rintro rfl
        exact hother after hfound
      have hothers := ih (show fuel ≤ enough by omega) hothers
      rw [readUntilBreak, delimited_readHead _ _ _ more hfound, hitem _ _ _ more ha]
      simp only [Option.bind_eq_bind, Option.bind_some, hothers]
      cases head with
      | breakMark => exact absurd rfl hne
      | _ => rfl

theorem Delimited.openList {item : Reader α} (hitem : Delimited item) (hhead : NeedsHead item) :
    Delimited (readOpenList item) := by
  intro bytes as rest more h
  have hfuel : bytes.length + 1 ≤ (bytes ++ more).length + 1 := by
    rw [List.length_append]
    omega
  exact hitem.untilBreak hhead hfuel h more

/-- Once there is a head after the tag, more bytes do not change whether a wide integer follows. -/
theorem readBigInteger?_append {tag : Nat} {bytes left : List UInt8} {head : Head}
    (hhead : readHead bytes = some (head, left)) (more : List UInt8) :
    (readBigInteger? tag bytes = none → readBigInteger? tag (bytes ++ more) = none) ∧
      ∀ item rest, readBigInteger? tag bytes = some (some (item, rest)) →
        readBigInteger? tag (bytes ++ more) = some (some (item, rest ++ more)) := by
  have hmore := delimited_readHead _ _ _ more hhead
  simp only [readBigInteger?, hhead, hmore]
  by_cases htag : tag = 2 ∨ tag = 3
  · rw [if_pos htag, if_pos htag]
    cases head with
    | item major length =>
      cases major with
      | bytes =>
        simp only
        split
        · refine ⟨nofun, fun item rest h => ?_⟩
          have h := Option.some.inj h
          simp only [Option.bind_eq_bind, Option.bind_eq_some_iff, Prod.exists] at h
          obtain ⟨digits, left, htake, h⟩ := h
          rw [delimited_takeBytes _ _ _ _ more htake]
          simp only [Option.bind_eq_bind, Option.bind_some]
          split_ifs at h ⊢
          · exact congrArg some (delimited_some _ _ _ _ more h)
          · exact congrArg some (delimited_some _ _ _ _ more h)
          · exact congrArg some (delimited_some _ _ _ _ more h)
        · exact ⟨fun _ => rfl, nofun⟩
      | _ => exact ⟨fun _ => rfl, nofun⟩
    | _ => exact ⟨fun _ => rfl, nofun⟩
  · rw [if_neg htag, if_neg htag]
    exact ⟨fun _ => rfl, nofun⟩

theorem exists_head_of_readBigInteger? {tag : Nat} {bytes : List UInt8}
    {result : Option (Item × List UInt8)} (h : readBigInteger? tag bytes = some result) :
    ∃ head rest, readHead bytes = some (head, rest) := by
  cases hhead : readHead bytes with
  | none =>
    rw [readBigInteger?, hhead] at h
    split at h <;> cases h
  | some x => exact ⟨x.1, x.2, rfl⟩

theorem needsHead_readItemWith (inner : Option (Reader Item)) :
    NeedsHead (readItemWith inner) := by
  intro bytes h
  rw [readItemWith, h]
  rfl

section Contents

variable {inner : Option (Reader Item)}
variable (hinner : ∀ read ∈ inner, Delimited read ∧ NeedsHead read)
include hinner

theorem delimited_array (n : Nat) : Delimited (readContent inner (.item .array n)) :=
  .inside fun read hread => ((hinner read hread).1.many n).map Item.array

theorem delimited_openArray : Delimited (readContent inner (.openEnded .array)) := by
  refine .inside fun read hread => ?_
  obtain ⟨hdelimited, hneeds⟩ := hinner read hread
  exact (hdelimited.openList hneeds).map Item.array

theorem delimited_map (n : Nat) : Delimited (readContent inner (.item .map n)) := by
  refine .inside fun read hread => ?_
  have hdelimited := (hinner read hread).1
  exact ((hdelimited.pair hdelimited).many n).map Item.map

theorem delimited_openMap : Delimited (readContent inner (.openEnded .map)) := by
  refine .inside fun read hread => ?_
  obtain ⟨hdelimited, hneeds⟩ := hinner read hread
  exact ((hdelimited.pair hdelimited).openList (hneeds.pair read)).map Item.map

/-- Only what begins with a head is taken for a wide integer. -/
theorem delimited_tag (number : Nat) : Delimited (readContent inner (.item .tag number)) := by
  intro bytes item rest more h
  simp only [readContent] at h ⊢
  cases hbig : readBigInteger? number bytes with
  | some result =>
    simp only [hbig] at h
    subst h
    obtain ⟨head, left, hhead⟩ := exists_head_of_readBigInteger? hbig
    rw [(readBigInteger?_append hhead more).2 item rest hbig]
  | none =>
    simp only [hbig] at h
    obtain ⟨read, hread, h⟩ := Option.bind_eq_some_iff.mp h
    obtain ⟨hdelimited, hneeds⟩ := hinner read hread
    obtain ⟨content, hcontent, -⟩ := Option.bind_eq_some_iff.mp h
    obtain ⟨head, left, hhead⟩ := hneeds.exists_head hcontent
    rw [(readBigInteger?_append hhead more).1 hbig]
    refine Option.bind_eq_some_iff.mpr ⟨read, hread, ?_⟩
    exact hdelimited.map (Item.tag number) _ _ _ more h

theorem delimited_readContent (head : Head) : Delimited (readContent inner head) := by
  cases head with
  | item major n =>
    cases major with
    | unsigned => exact delimited_some _
    | negative => exact delimited_some _
    | bytes => exact (delimited_takeBytes n).map Item.bytes
    | text => exact (delimited_takeBytes n).mapSome ofUtf8? Item.text
    | array => exact delimited_array hinner n
    | map => exact delimited_map hinner n
    | tag => exact delimited_tag hinner n
    | simple => exact delimited_none
  | openEnded major =>
    cases major with
    | bytes =>
      exact (delimited_readOpenString .bytes).map fun chunks => Item.bytes chunks.flatten
    | text =>
      exact (delimited_readOpenString .text).mapSome (·.mapM ofUtf8?) fun texts =>
        Item.text (String.join texts)
    | array => exact delimited_openArray hinner
    | map => exact delimited_openMap hinner
    | unsigned | negative | tag | simple => exact delimited_none
  | simple code => exact delimited_ofOption (Item.ofSimple? code) id
  | float => exact delimited_some _
  | breakMark => exact delimited_none

theorem Delimited.itemWith : Delimited (readItemWith inner) :=
  delimited_readHead.bind fun head => delimited_readContent hinner head

end Contents

theorem delimited_readItem (limit : Nat) : Delimited (readItem limit) := by
  induction limit with
  | zero => exact Delimited.itemWith nofun
  | succ limit ih =>
    refine Delimited.itemWith fun read hread => ?_
    obtain rfl := Option.some.inj hread
    refine ⟨ih, ?_⟩
    rw [readItem_eq]
    exact needsHead_readItemWith _

end Cbor

namespace Value

/-- No item stands in a part of the bytes that were written for a value: the whole would be read as
the same item with bytes left over. -/
theorem readItem_of_part (limit : Nat) {v : Value} (hsize : v.Addressable)
    {part more : List UInt8} (hbytes : part ++ more = v.write) (hmore : more ≠ []) :
    readItem limit part = none := by
  cases hread : readItem limit part with
  | none => rfl
  | some x =>
    have hwhole := delimited_readItem limit part x.1 x.2 more hread
    have hwritten := readItem_write limit v hsize []
    rw [List.append_nil, ← hbytes, hwhole] at hwritten
    split at hwritten
    next =>
      have hrest : x.2 ++ more = [] := (Prod.mk.inj (Option.some.inj hwritten)).2
      exact absurd (List.append_eq_nil_iff.mp hrest).2 hmore
    next => cases hwritten

theorem decode_of_none {bytes : List UInt8} (h : readItem depthLimit bytes = none) :
    ∃ text, decode bytes = .error (.decodingFailed text) := by
  rw [decode, h]
  exact ⟨_, rfl⟩

theorem decode_of_more {bytes more : List UInt8} {item : Item} (hmore : more ≠ [])
    (h : readItem depthLimit bytes = some (item, more)) :
    decode bytes = .error (.trailingBytes more.length) := by
  rw [decode, h]
  cases more with
  | nil => exact absurd rfl hmore
  | cons b more => rfl

/-- The bytes of a value say where they end: no part of them can be decoded, and what follows all of
them is reported byte by byte. -/
theorem encode_selfDelimiting (v : Value) (bytes : List UInt8) (hsize : v.Addressable)
    (hencode : v.encode = .ok bytes) :
    (∀ part, part <+: bytes → part ≠ bytes →
      ∃ text, decode part = .error (.decodingFailed text)) ∧
    (v.depth ≤ depthLimit → ∀ more, more ≠ [] →
      decode (bytes ++ more) = .error (.trailingBytes more.length)) := by
  -- The bytes are those of a rearranged value, which the reader gives back as it was written.
  obtain ⟨u, hu, rfl⟩ := encode_eq_ok.mp hencode
  have hvu := rearranged_of_toEncodedOrder hu
  have hsize := hvu.addressable_iff.mp hsize
  constructor
  · rintro part ⟨more, hbytes⟩ hne
    have hmore : more ≠ [] := by
      rintro rfl
      exact hne (by rw [← hbytes, List.append_nil])
    exact decode_of_none (readItem_of_part depthLimit hsize hbytes hmore)
  · intro hdepth more hmore
    have hread := readItem_write depthLimit u hsize more
    rw [if_pos (hvu.depth_eq ▸ hdepth)] at hread
    exact decode_of_more hmore hread

theorem encode_selfDelimiting_unordered :
    unordered.Addressable ∧ unordered.encode = .ok unorderedBytes ∧
      (∃ text, decode (unorderedBytes.take 9) = .error (.decodingFailed text)) ∧
      decode (unorderedBytes ++ [0xf6, 0xff, 0x61]) = .error (.trailingBytes 3) := by
  obtain ⟨hpart, hmore⟩ :=
    encode_selfDelimiting unordered unorderedBytes addressable_unordered encode_unordered
  refine ⟨addressable_unordered, encode_unordered, ?_, ?_⟩
  · exact hpart _ (List.take_prefix 9 unorderedBytes) (by decide)
  · exact hmore (by decide) [0xf6, 0xff, 0x61] nofun

end Value

end LazyCollections
