import LazyCollections.Element.Part

/-!
# What collections rely on in their elements

Elements and keys survive being stored, stored identities tell elements apart, and a copy of an
element is no change of it. An element whose state is unchanged is the same element: in a set this
is asked only of elements of one identity, elsewhere of any two. Scalars keep these laws, and parts
keep them as elements of sets; elsewhere they keep all but the last.
-/

namespace LazyCollections

set_option autoImplicit false

def Scalar.Restores (S : Scalar) : Prop :=
  ∀ s : S.Carrier, S.fromValue? (S.toValue s) = some s

namespace ElementType

variable (T : ElementType)

/-- An element is read back from its stored form, which is never null. -/
structure Storable : Prop where
  internalize_externalize : ∀ e : T.Element, (T.externalize e >>= T.internalize) = .ok e
  externalize_ne_null : ∀ e : T.Element, T.externalize e ≠ .ok .null

/-- The stored forms of identities: two elements have one, the same, exactly if they are the same
entity. -/
def StorableId : Prop :=
  ∀ a b : T.Element, (∃ v, T.externalizeId a = .ok v ∧ T.externalizeId b = .ok v) ↔
    T.idOf a = T.idOf b

/-- An element whose state is unchanged is the same element. In a set this is asked only of elements
of one identity. -/
def TellsApart (shape : Shape) : Prop :=
  ∀ a b : T.Element, (shape = .set → T.idOf a = T.idOf b) → T.isDirty a b = false → a = b

structure Lawful (shape : Shape) : Prop extends Storable T where
  storableId : shape ≠ .keyed → T.StorableId
  deepCopy_eq : ∀ e : T.Element, T.deepCopy e = e
  isDirty_self : ∀ e : T.Element, T.isDirty e e = false
  eq_of_not_isDirty : ∀ a b : T.Element, (shape = .set → T.idOf a = T.idOf b) →
    T.isDirty a b = false → a = b

/-- The laws but for the one about unchanged states, which only a comparison of loaded contents
relies on. -/
structure Faithful (shape : Shape) : Prop extends Storable T where
  storableId : shape ≠ .keyed → T.StorableId
  deepCopy_eq : ∀ e : T.Element, T.deepCopy e = e
  isDirty_self : ∀ e : T.Element, T.isDirty e e = false

def form (e : T.Element) : Value :=
  (T.externalize e).toOption.getD .null

def idForm (e : T.Element) : Value :=
  (T.externalizeId e).toOption.getD .null

def slotForm : Option T.Element → Value
  | none => .null
  | some e => T.form e

variable {T}

theorem Lawful.faithful {shape : Shape} (hT : T.Lawful shape) : T.Faithful shape :=
  { hT with }

theorem Lawful.tellsApart {shape : Shape} (hT : T.Lawful shape) : T.TellsApart shape :=
  hT.eq_of_not_isDirty

namespace Storable

variable (hT : T.Storable)
include hT

theorem externalize_eq (e : T.Element) : T.externalize e = .ok (T.form e) := by
  have h := hT.internalize_externalize e
  unfold form
  cases hv : T.externalize e with
  | ok v => rfl
  | error error =>
    rw [hv] at h
    cases h

theorem internalize_form (e : T.Element) : T.internalize (T.form e) = .ok e := by
  have h := hT.internalize_externalize e
  rw [hT.externalize_eq e] at h
  exact h

theorem form_ne_null (e : T.Element) : T.form e ≠ .null := by
  intro h
  apply hT.externalize_ne_null e
  rw [hT.externalize_eq e, h]

theorem isNull_form (e : T.Element) : (T.form e).isNull = false := by
  cases h : (T.form e).isNull with
  | false => rfl
  | true => exact absurd (Value.isNull_iff.mp h) (hT.form_ne_null e)

theorem isNull_slotForm (slot : Option T.Element) :
    (T.slotForm slot).isNull = slot.isNone := by
  cases slot with
  | none => rfl
  | some e => exact hT.isNull_form e

/-- Elements are told apart if those whose state is unchanged are stored alike. -/
theorem tellsApart {shape : Shape}
    (h : ∀ a b : T.Element, (shape = .set → T.idOf a = T.idOf b) → T.isDirty a b = false →
      T.externalize a = T.externalize b) : T.TellsApart shape := by
  intro a b hid hclean
  have hstored := hT.internalize_externalize a
  rw [h a b hid hclean, hT.internalize_externalize b] at hstored
  exact (Except.ok.inj hstored).symm

theorem internalizeSlot_slotForm (slot : Option T.Element) :
    T.internalizeSlot (T.slotForm slot) = .ok slot := by
  cases slot with
  | none => rfl
  | some e =>
    simp only [internalizeSlot, slotForm, hT.isNull_form, hT.internalize_form]
    rfl

end Storable

namespace StorableId

variable (hT : T.StorableId)
include hT

theorem externalizeId_eq (e : T.Element) : T.externalizeId e = .ok (T.idForm e) := by
  obtain ⟨v, hv, _⟩ := (hT e e).mpr rfl
  rw [idForm, hv]
  rfl

theorem idForm_eq_iff (a b : T.Element) : T.idForm a = T.idForm b ↔ T.idOf a = T.idOf b := by
  rw [← hT a b, hT.externalizeId_eq a, hT.externalizeId_eq b]
  constructor
  · intro h
    exact ⟨T.idForm b, congrArg Except.ok h, rfl⟩
  · rintro ⟨v, ha, hb⟩
    exact (Except.ok.inj ha).trans (Except.ok.inj hb).symm

end StorableId

@[simp] theorem same_iff {a b : T.Element} : T.same a b = true ↔ T.idOf a = T.idOf b := by
  simp [same]

theorem lawful_ofScalar {S : Scalar} (hS : S.Restores) (hnull : ∀ s, S.toValue s ≠ .null)
    (shape : Shape) : (ofScalar S).Lawful shape where
  internalize_externalize s := by
    change S.fromValue (S.toValue s) = .ok s
    simp [Scalar.fromValue, hS s]
  externalize_ne_null s h := hnull s (Except.ok.inj h)
  storableId _ a b := by
    constructor
    · rintro ⟨v, ha, hb⟩
      have hsame : S.toValue a = S.toValue b := (Except.ok.inj ha).trans (Except.ok.inj hb).symm
      have hread := hS b
      rw [← hsame, hS a] at hread
      exact Option.some.inj hread
    · intro h
      exact ⟨S.toValue b, congrArg (fun s => Except.ok (S.toValue s)) h, rfl⟩
  deepCopy_eq _ := rfl
  isDirty_self (s : S.Carrier) := decide_eq_false fun h => h rfl
  eq_of_not_isDirty a b _ h := by simpa [ofScalar] using h

end ElementType

theorem Scalar.restores_text : Scalar.text.Restores := fun _ => rfl

theorem Scalar.restores_integer : Scalar.integer.Restores := fun _ => rfl

theorem Scalar.restores_bool : Scalar.bool.Restores := fun _ => rfl

theorem Scalar.restores_entityId : Scalar.entityId.Restores := Scalar.fromValue?_entityId

theorem Scalar.restores_unkeyed : Scalar.unkeyed.Restores := nofun

def EntityId.filled (byte : UInt8) : EntityId :=
  ⟨.replicate 16 byte, rfl⟩

theorem Part.eq_of_not_isDirty {a b : Part} (hid : a.id = b.id) (h : a.isDirty b = false) :
    a = b := by
  cases a
  cases b
  simp_all [Part.isDirty]

theorem Part.faithful (shape : Shape) : Part.elementType.Faithful shape where
  internalize_externalize := Part.ofValue_toValue
  externalize_ne_null part h := by
    have hv : part.toValue = .null := Except.ok.inj h
    rw [Part.toValue_eq part] at hv
    cases hv
  storableId _ a b := by
    constructor
    · rintro ⟨v, ha, hb⟩
      have hsame : Value.bytes a.id.bytes = .bytes b.id.bytes :=
        (Except.ok.inj ha).trans (Except.ok.inj hb).symm
      exact EntityId.ext (Value.bytes.inj hsame)
    · intro h
      exact ⟨.bytes b.id.bytes,
        congrArg (fun id : EntityId => Except.ok (Value.bytes id.bytes)) h, rfl⟩
  deepCopy_eq _ := rfl
  isDirty_self part := by simp [Part.elementType, Part.isDirty]

theorem Part.lawful_set : Part.elementType.Lawful .set :=
  { Part.faithful .set with
    eq_of_not_isDirty := fun _ _ hid h => Part.eq_of_not_isDirty (hid rfl) h }

end LazyCollections
