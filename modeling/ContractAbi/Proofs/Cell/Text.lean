import ContractAbi.Cell.BitsLemmas
import ContractAbi.Cell.Slice

/-!
# Text in cells

What a text becomes on its way into a cell is undone on the way back: the bytes of a text give the
text, and the chain of cells that holds bytes gives the bytes.
-/

namespace ContractAbi

theorem toList_loop (data : ByteArray) (i : Nat) (seen : List UInt8) :
    ByteArray.toList.loop data i seen = seen.reverse ++ data.data.toList.drop i := by
  fun_induction ByteArray.toList.loop data i seen with
  | case1 i seen inside ih =>
    have inside' : i < data.data.toList.length := by simpa using inside
    rw [ih, List.reverse_cons, List.append_assoc, List.drop_eq_getElem_cons inside']
    simp [ByteArray.get!, inside]
  | case2 i seen past =>
    rw [List.drop_eq_nil_of_le (by simpa using past), List.append_nil]

theorem toList_eq_toList_data (data : ByteArray) : data.toList = data.data.toList := by
  rw [ByteArray.toList, toList_loop]
  simp

/-- A text is read back from its bytes. -/
theorem textOfBytes?_toUTF8 (s : String) : textOfBytes? s.toUTF8.toList = some s := by
  have whole : s.toUTF8.toList.toByteArray = s.toByteArray := by
    rw [toList_eq_toList_data]
    apply ByteArray.ext
    rw [List.data_toByteArray, String.toUTF8_eq_toByteArray]
  rw [textOfBytes?, whole]
  unfold String.fromUTF8?
  rw [dif_pos s.isValidUTF8]
  rfl

/-- The bytes are those of a text. -/
def IsUtf8 (bytes : List UInt8) : Prop := ∃ t : String, t.toUTF8.toList = bytes

/-- Bytes are the text whose encoding they are. -/
theorem textOfBytes?_eq_some_iff {bytes : List UInt8} {t : String} :
    textOfBytes? bytes = some t ↔ t.toUTF8.toList = bytes := by
  constructor
  · intro read
    unfold textOfBytes? String.fromUTF8? at read
    split at read
    · obtain rfl := Option.some.inj read
      rw [toList_eq_toList_data, String.toUTF8_eq_toByteArray]
      exact congrArg Array.toList List.data_toByteArray
    · contradiction
  · rintro rfl
    exact textOfBytes?_toUTF8 t

theorem textOfBytes?_eq_none_iff {bytes : List UInt8} :
    textOfBytes? bytes = none ↔ ¬ IsUtf8 bytes := by
  simp only [Option.eq_none_iff_forall_ne_some, ne_eq, textOfBytes?_eq_some_iff, IsUtf8,
    not_exists]

/-- A chain of cells is read back as the bytes in it. -/
theorem Cell.snakeBytes?_snake (bytes : List UInt8) : (snake bytes).snakeBytes? = some bytes := by
  fun_induction snake bytes with
  | case1 bytes short =>
    rw [snakeBytes?, if_pos (by simp), tailBytes?, Bits.pack_ofBytes]
    simp
  | case2 bytes long ih =>
    rw [snakeBytes?, if_pos (by simp), tailBytes?, ih, Bits.pack_ofBytes]
    simp

end ContractAbi
