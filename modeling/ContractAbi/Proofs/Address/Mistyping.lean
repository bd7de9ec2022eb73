import ContractAbi.Proofs.Address.Checksum
import ContractAbi.Proofs.Address.Forms

/-!
# Mistyped addresses

The checksum guards the friendly form against slips. A character stands for six bits, so that two
neighbours are twelve, which is less than the sixteen bits of the checksum. So a text that differs
from a friendly form in one character or in two neighbours, be they swapped or replaced, is no
address (`ofFriendly_mistyped`).
-/

namespace ContractAbi.Address

variable {a : Address} {bounceable testnet : Bool} {text : String}

/-- The second text is the first one with at most two neighbouring characters replaced. -/
def Mistyped (written typed : List Char) : Prop :=
  ∃ front meant hit back, written = front ++ meant ++ back ∧ typed = front ++ hit ++ back ∧
    meant.length = hit.length ∧ meant.length ≤ 2

/-- The bytes of an address leave nothing in the register. -/
theorem crc16_code : Checksum.crc16 (a.code bounceable testnet) = 0 :=
  Checksum.crc16_append_bytes _

/-- The bytes of an address are whole groups of base 64. -/
theorem dvd_length_code : 3 ∣ (a.code bounceable testnet).length := by
  rw [length_code]
  decide

theorem length_sextets (cs : List Char) : (cs.flatMap Base64.sextet).length = 6 * cs.length := by
  have six : ∀ c, (Base64.sextet c).length = 6 := fun c => Bits.length_ofNat 6 _
  simp only [List.length_flatMap, six, List.map_const', List.sum_replicate_nat, Nat.mul_comm]

/-- Texts of whole groups that differ in two neighbouring characters, and whose bytes leave nothing
in the register, stand for the same bytes. -/
theorem eq_of_decode_of_crc16 {front meant hit back : List Char} {bytes others : List UInt8}
    (length : meant.length = hit.length) (near : meant.length ≤ 2)
    (read : Base64.decode (front ++ meant ++ back) = some bytes)
    (read' : Base64.decode (front ++ hit ++ back) = some others)
    (whole : 3 ∣ bytes.length) (whole' : 3 ∣ others.length)
    (clear : Checksum.crc16 bytes = 0) (clear' : Checksum.crc16 others = 0) : bytes = others := by
  have bits := Base64.ofBytes_of_decode read whole
  have bits' := Base64.ofBytes_of_decode read' whole'
  rw [List.flatMap_append, List.flatMap_append] at bits bits'
  have same := clear.trans clear'.symm
  rw [Checksum.crc16_eq_takeBits, Checksum.crc16_eq_takeBits, bits, bits'] at same
  have width : (meant.flatMap Base64.sextet).length = (hit.flatMap Base64.sextet).length := by
    rw [length_sextets, length_sextets, length]
  have short : (meant.flatMap Base64.sextet).length ≤ 16 := by
    rw [length_sextets]
    omega
  have typed := Checksum.eq_of_takeBits_eq width short same
  rw [← Bits.pack_ofBytes bytes, ← Bits.pack_ofBytes others, bits, bits', typed]

/-- Replacing characters touches only those that were typed wrong. -/
theorem map_safeChar_mistyped {front meant hit back : List Char}
    (written : (a.friendly bounceable testnet).toList = front ++ meant ++ back) :
    (front ++ hit ++ back).map safeChar = front ++ hit.map safeChar ++ back := by
  have fixed : (a.friendly bounceable testnet).toList.map safeChar =
      (a.friendly bounceable testnet).toList := map_safeChar_friendly
  rw [written, List.map_append, List.map_append] at fixed
  have parts := List.append_inj fixed (by simp)
  have parts' := List.append_inj parts.1 (by simp)
  rw [List.map_append, List.map_append, parts'.1, parts.2]

/-- A slip in one character or in two neighbours of a friendly form is noticed, unless the text
still stands for the same bytes. -/
theorem ofFriendly_mistyped
    (mistyped : Mistyped (a.friendly bounceable testnet).toList text.toList)
    (differs : Base64.decode (text.toList.map safeChar) ≠
      Base64.decode (a.friendly bounceable testnet).toList) :
    ∃ fault, ofFriendly text = .error fault := by
  cases read : ofFriendly text with
  | error fault => exact ⟨fault, rfl⟩
  | ok other =>
    obtain ⟨bounceable', testnet', decoded⟩ := ofFriendly_eq_ok_iff.mp read
    obtain ⟨front, meant, hit, back, written, typed, length, near⟩ := mistyped
    have meantBytes : Base64.decode (a.friendly bounceable testnet).toList =
        some (a.code bounceable testnet) := decode_friendly
    rw [decoded, meantBytes] at differs
    rw [written] at meantBytes
    rw [typed, map_safeChar_mistyped written] at decoded
    have length' : meant.length = (hit.map safeChar).length := by rw [length, List.length_map]
    have same := eq_of_decode_of_crc16 length' near meantBytes decoded dvd_length_code
      dvd_length_code crc16_code crc16_code
    exact absurd (congrArg some same.symm) differs

/-- Neighbours swapped where the hash ends and the checksum starts. -/
theorem ofFriendly_swapped_neighbours :
    Mistyped (zero.friendly true false).toList
      "EQAAAAAAAAAAAAAAAAAAAAAAAAAAAAAAAAAAAAAAAAAAMA9c".toList ∧
    Base64.decode ("EQAAAAAAAAAAAAAAAAAAAAAAAAAAAAAAAAAAAAAAAAAAMA9c".toList.map safeChar) ≠
      Base64.decode (zero.friendly true false).toList ∧
    ∃ fault, ofFriendly "EQAAAAAAAAAAAAAAAAAAAAAAAAAAAAAAAAAAAAAAAAAAMA9c" = .error fault := by
  have written : (zero.friendly true false).toList =
      "EQAAAAAAAAAAAAAAAAAAAAAAAAAAAAAAAAAAAAAAAAAAAM9c".toList := by
    decide +kernel
  have mistyped : Mistyped (zero.friendly true false).toList
      "EQAAAAAAAAAAAAAAAAAAAAAAAAAAAAAAAAAAAAAAAAAAMA9c".toList := by
    rw [written]
    exact ⟨"EQAAAAAAAAAAAAAAAAAAAAAAAAAAAAAAAAAAAAAAAAAA".toList, "AM".toList, "MA".toList,
      "9c".toList, by decide +kernel, by decide +kernel, by decide, by decide⟩
  have differs : Base64.decode
      ("EQAAAAAAAAAAAAAAAAAAAAAAAAAAAAAAAAAAAAAAAAAAMA9c".toList.map safeChar) ≠
        Base64.decode (zero.friendly true false).toList := by
    rw [written]
    decide +kernel
  exact ⟨mistyped, differs, ofFriendly_mistyped mistyped differs⟩

end ContractAbi.Address
