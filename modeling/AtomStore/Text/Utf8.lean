import AtomStore.Particle

/-!
# UTF-8

Texts are stored as their UTF-8 bytes. Reading accepts exactly the byte runs that writing produces.
-/

namespace AtomStore.Text

/-- The UTF-8 bytes of a text. -/
def utf8 (text : String) : Bytes := text.toByteArray.data.toList

/-- The text of some UTF-8 bytes, if they are well formed. -/
def ofUtf8? (bytes : Bytes) : Option String := String.fromUTF8? bytes.toByteArray

/-- Bytes taken out of an array and put into one again are the array. -/
theorem toByteArray_toList (array : ByteArray) : array.data.toList.toByteArray = array := by
  apply ByteArray.ext
  apply Array.toList_inj.mp
  exact List.toList_data_toByteArray

/-- A written text reads back. -/
@[simp] theorem ofUtf8?_utf8 (text : String) : ofUtf8? (utf8 text) = some text := by
  rw [ofUtf8?, utf8, toByteArray_toList, String.fromUTF8?, dif_pos text.isValidUTF8]
  rfl

/-- Bytes that read as a text are the bytes written for it. -/
theorem eq_utf8_of_ofUtf8? {bytes : Bytes} {text : String} (read : ofUtf8? bytes = some text) :
    bytes = utf8 text := by
  unfold ofUtf8? String.fromUTF8? at read
  split at read
  · cases read
    exact List.toList_data_toByteArray.symm
  · cases read

end AtomStore.Text
