/-!
# Texts as bytes

The encoding of a text in UTF-8 as a list of bytes, and reading it. Reading accepts exactly the
encodings of texts.
-/

namespace LazyCollections.Text

set_option autoImplicit false

def utf8 (text : String) : List UInt8 :=
  text.toUTF8.data.toList

def ofUtf8? (bytes : List UInt8) : Option String :=
  String.fromUTF8? ⟨bytes.toArray⟩

theorem ofUtf8?_eq_some_iff {bytes : List UInt8} {text : String} :
    ofUtf8? bytes = some text ↔ utf8 text = bytes := by
  unfold ofUtf8? utf8 String.fromUTF8?
  constructor
  · intro h
    split at h
    next hvalid =>
      cases h
      simp [String.fromUTF8]
    next => cases h
  · intro h
    subst h
    have hvalid : ByteArray.IsValidUTF8 ⟨text.toUTF8.data.toList.toArray⟩ := by
      simpa using text.isValidUTF8
    rw [dif_pos hvalid]
    exact congrArg some (String.toByteArray_inj.mp (by simp [String.fromUTF8]))

@[simp] theorem ofUtf8?_utf8 (text : String) : ofUtf8? (utf8 text) = some text :=
  ofUtf8?_eq_some_iff.mpr rfl

@[simp] theorem length_utf8 (text : String) : (utf8 text).length = text.utf8ByteSize := by
  simp [utf8, ← ByteArray.size_data, String.utf8ByteSize]

end LazyCollections.Text
