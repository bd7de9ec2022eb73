import ContractAbi.Address.Friendly
import ContractAbi.Proofs.Address.Base64
import ContractAbi.Proofs.Text.Ascii
import ContractAbi.Proofs.Text.Decimal
import ContractAbi.Proofs.Text.Spacing

/-!
# The two text forms of addresses

An address is read back from each text that is written for it. The friendly form is read in either
alphabet, and apart from that nothing but what is written for an address is read as one
(`parse_forms`).
-/

namespace ContractAbi.Address

variable {a : Address} {bounceable testnet : Bool}

/-- The bytes that the friendly form stands for. -/
def code (a : Address) (bounceable testnet : Bool) : List UInt8 :=
  a.payload bounceable testnet ++ Checksum.bytes (Checksum.crc16 (a.payload bounceable testnet))

theorem length_payload : (a.payload bounceable testnet).length = 34 := by
  rw [payload, List.length_cons, List.length_cons, a.length_hash]

theorem length_code : (a.code bounceable testnet).length = 36 := by
  rw [code, List.length_append, length_payload]
  rfl

/-- The friendly form is the base 64 of its bytes. -/
theorem toList_friendly :
    (a.friendly bounceable testnet).toList = Base64.encode (a.code bounceable testnet) :=
  String.toList_ofList

/-- The friendly form stands for its bytes. -/
theorem decode_friendly :
    Base64.decode (a.friendly bounceable testnet).toList = some (a.code bounceable testnet) := by
  rw [toList_friendly, Base64.decode_encode]

/-- A workchain is read back from its byte. -/
theorem ofNat_workchain (w : Int8) :
    Int8.ofNat (UInt8.ofNat (w.toInt % 256).toNat).toNat = w := by
  have byte : (((w.toInt % 256).toNat % 2 ^ 8 : Nat) : Int) = w.toInt % 256 := by omega
  have size : ((Int8.size : Nat) : Int) = 256 := rfl
  rw [← Int8.toInt_inj, Int8.toInt_ofNat', UInt8.toNat_ofNat', byte, ← size, Int.emod_bmod]
  exact Int8.toInt_bmod w

/-- A byte is written again for the workchain that it is read as. -/
theorem workchain_ofNat (byte : UInt8) :
    UInt8.ofNat ((Int8.ofNat byte.toNat).toInt % 256).toNat = byte := by
  have small := byte.toNat_lt
  have size : ((Int8.size : Nat) : Int) = 256 := rfl
  rw [← UInt8.toNat_inj, UInt8.toNat_ofNat', Int8.toInt_ofNat', ← size, Int.bmod_emod, size]
  omega

/-- The flag of test networks is the only bit in which a tag may differ from the two base tags. -/
theorem exists_tag_iff {byte : UInt8} :
    (byte &&& ~~~testFlag = bounceableTag ∨ byte &&& ~~~testFlag = plainTag) ↔
      ∃ bounceable testnet, tag bounceable testnet = byte := by
  have all : ∀ n < 256, (UInt8.ofNat n &&& ~~~testFlag = bounceableTag ∨
      UInt8.ofNat n &&& ~~~testFlag = plainTag) ↔
        ∃ bounceable testnet, tag bounceable testnet = UInt8.ofNat n := by
    decide +kernel
  have here := all byte.toNat byte.toNat_lt
  rwa [UInt8.ofNat_toNat] at here

/-- An address is made of a workchain and a hash, and has nothing else. -/
theorem ofHash?_eq_some_iff {workchain : Int8} {hash : List UInt8} :
    ofHash? workchain hash = some a ↔ a.workchain = workchain ∧ a.hash = hash := by
  unfold ofHash?
  constructor
  · intro found
    split at found
    · cases found
      exact ⟨rfl, rfl⟩
    · cases found
  · rintro ⟨rfl, rfl⟩
    rw [dif_pos a.length_hash]

/-- Bytes that pass all checks are those of the address that is found in them. -/
theorem exists_code_eq {t w : UInt8} {rest : List UInt8}
    (tagged : t &&& ~~~testFlag = bounceableTag ∨ t &&& ~~~testFlag = plainTag)
    (found : ofHash? (Int8.ofNat w.toNat) (rest.take 32) = some a)
    (checked : Checksum.bytes (Checksum.crc16 (t :: w :: rest.take 32)) = rest.drop 32) :
    ∃ bounceable testnet, t :: w :: rest = a.code bounceable testnet := by
  obtain ⟨workchain, hash⟩ := ofHash?_eq_some_iff.mp found
  obtain ⟨bounceable, testnet, tagged⟩ := exists_tag_iff.mp tagged
  refine ⟨bounceable, testnet, ?_⟩
  have body : a.payload bounceable testnet = t :: w :: rest.take 32 := by
    rw [payload, tagged, workchain, workchain_ofNat, hash]
  rw [code, body, checked, List.cons_append, List.cons_append, List.take_append_drop]

/-- The bytes of an address pass all checks. -/
theorem ofFriendly_of_decode {text : String}
    (decoded : Base64.decode (text.toList.map safeChar) = some (a.code bounceable testnet)) :
    ofFriendly text = .ok a := by
  have shape : a.code bounceable testnet =
      tag bounceable testnet :: UInt8.ofNat (a.workchain.toInt % 256).toNat ::
        (a.hash ++ Checksum.bytes (Checksum.crc16 (a.payload bounceable testnet))) := rfl
  have body : (a.code bounceable testnet).take 34 = a.payload bounceable testnet := by
    rw [code, List.take_left' length_payload]
  have sum : (a.code bounceable testnet).drop 34 =
      Checksum.bytes (Checksum.crc16 (a.payload bounceable testnet)) := by
    rw [code, List.drop_left' length_payload]
  have untagged : ¬ (tag bounceable testnet &&& ~~~testFlag ≠ bounceableTag ∧
      tag bounceable testnet &&& ~~~testFlag ≠ plainTag) := by
    have tagged := exists_tag_iff.mpr ⟨bounceable, testnet, rfl⟩
    tauto
  have length : (a.code bounceable testnet).length = 36 := length_code
  unfold ofFriendly
  rw [decoded]
  rw [shape] at body sum length ⊢
  dsimp only
  rw [if_neg (not_not.mpr length), if_neg untagged, body, sum, if_neg (not_not.mpr rfl),
    List.take_left' a.length_hash, ofHash?_eq_some_iff.mpr ⟨(ofNat_workchain _).symm, rfl⟩]

/-- A text is read as an address if its bytes are those of the address for some choice of flags. -/
theorem ofFriendly_eq_ok_iff {text : String} :
    ofFriendly text = .ok a ↔ ∃ bounceable testnet,
      Base64.decode (text.toList.map safeChar) = some (a.code bounceable testnet) := by
  constructor
  · intro read
    unfold ofFriendly at read
    split at read
    · cases read
    rename_i bytes decoded
    rw [decoded]
    split at read
    · rename_i t w rest
      split_ifs at read with length untagged unchecked
      split at read
      · rename_i found
        cases read
        obtain ⟨bounceable, testnet, same⟩ := exists_code_eq (by tauto) found (not_not.mp unchecked)
        exact ⟨bounceable, testnet, congrArg some same⟩
      · cases read
    · cases read
  · rintro ⟨bounceable, testnet, decoded⟩
    exact ofFriendly_of_decode decoded

/-- What is written in base 64 has neither blanks nor colons in it, and no character to replace. -/
theorem of_mem_friendly {c : Char} (among : c ∈ (a.friendly bounceable testnet).toList) :
    Text.isBlank c = false ∧ c ≠ ':' ∧ safeChar c = c := by
  have all : (Base64.alphabet.all fun c =>
      decide (Text.isBlank c = false ∧ c ≠ ':' ∧ safeChar c = c)) = true := by
    decide
  rw [toList_friendly] at among
  have letter := List.all_eq_true.mp all c (Base64.mem_alphabet_of_mem_encode among)
  exact of_decide_eq_true letter

/-- In the friendly form there is nothing to replace. -/
theorem map_safeChar_friendly :
    (a.friendly bounceable testnet).toList.map safeChar = (a.friendly bounceable testnet).toList := by
  have fixed : ∀ c ∈ (a.friendly bounceable testnet).toList, safeChar c = id c :=
    fun _ among => (of_mem_friendly among).2.2
  rw [List.map_congr_left fixed, List.map_id]

/-- Every friendly form of an address is read as the address. -/
theorem parse_friendly : parse (a.friendly bounceable testnet) = .ok a := by
  have trimmed : Text.trimmed (a.friendly bounceable testnet) = a.friendly bounceable testnet :=
    Text.trimmed_eq_of_letters fun c among => (of_mem_friendly among).1
  have noColon : (a.friendly bounceable testnet).toList.contains ':' = false := by
    rw [List.contains_eq_mem, decide_eq_false_iff_not]
    exact fun among => (of_mem_friendly among).2.1 rfl
  have read : ofFriendly (a.friendly bounceable testnet) = .ok a := by
    rw [ofFriendly_eq_ok_iff, map_safeChar_friendly]
    exact ⟨bounceable, testnet, decode_friendly⟩
  rw [parse, trimmed, noColon, if_neg Bool.false_ne_true, read]

/-- The raw form is the workchain, a colon, and the digits of the hash. -/
theorem toList_raw :
    a.raw.toList = (toString a.workchain.toInt).toList ++ ':' :: Text.Hex.digits a.hash := by
  have hash : (Text.Hex.encode a.hash).toList = Text.Hex.digits a.hash := String.toList_ofList
  rw [raw, String.toList_append, String.toList_append, hash, List.append_assoc]
  rfl

theorem of_mem_toString {v : Int} {c : Char} (among : c ∈ (toString v).toList) :
    Text.isBlank c = false ∧ (c != ':') = true := by
  rcases Text.Decimal.eq_minus_or_isDigit_of_mem_toString among with rfl | digit
  · decide
  · have word : Text.isWordChar c = true := by simp [Text.isWordChar, Char.isAlphanum, digit]
    refine ⟨Text.isBlank_of_isWordChar word, ?_⟩
    rw [bne_iff_ne]
    rintro rfl
    cases digit

/-- The raw form of an address is read as the address. -/
theorem ofRaw_raw : ofRaw a.raw = .ok a := by
  have lower := a.workchain.le_toInt
  have upper := a.workchain.toInt_lt
  have number : Text.Decimal.integer? (-128) 127 (toString a.workchain.toInt).toList =
      some a.workchain.toInt := Text.Decimal.integer?_toString lower (by omega)
  have inside : ∀ c ∈ (toString a.workchain.toInt).toList, (c != ':') = true :=
    fun c among => (of_mem_toString among).2
  have stops : (':' != ':') = false := rfl
  have front := Text.takeWhile_run inside (Text.Hex.digits a.hash) stops
  have behind := Text.dropWhile_run inside (Text.Hex.digits a.hash) stops
  have found : ofHash? (Int8.ofInt a.workchain.toInt) a.hash = some a :=
    ofHash?_eq_some_iff.mpr ⟨(Int8.ofInt_toInt _).symm, rfl⟩
  have read : ofRawChars? a.raw.toList = some a := by
    rw [ofRawChars?, toList_raw, behind, front]
    simp only [number, Text.Hex.decode_digits, Option.bind_eq_bind, Option.bind_some, found]
  rw [ofRaw, read]

/-- The colon tells the raw form from the friendly one. -/
theorem parse_raw : parse a.raw = .ok a := by
  have letters : ∀ c ∈ a.raw.toList, Text.isBlank c = false := by
    intro c among
    rw [toList_raw, List.mem_append, List.mem_cons] at among
    rcases among with number | rfl | digit
    · exact (of_mem_toString number).1
    · decide
    · have hex := Text.Hex.isHexDigit_of_mem_digits digit
      exact Text.isBlank_of_isWordChar (Text.isWordChar_of_isHexDigit hex)
  have colon : a.raw.toList.contains ':' = true := by
    rw [toList_raw]
    simp
  rw [parse, Text.trimmed_eq_of_letters letters, if_pos colon, ofRaw_raw]

/-- Both forms of an address are read as this address. What is read in the friendly form is, but for
the alphabet, the friendly form of the address that it is read as. -/
theorem parse_forms :
    (∀ a : Address, parse a.raw = .ok a ∧
      ∀ bounceable testnet, parse (a.friendly bounceable testnet) = .ok a) ∧
    ∀ (text : String) (a : Address), ofFriendly text = .ok a ↔
      ∃ bounceable testnet,
        String.ofList (text.toList.map safeChar) = a.friendly bounceable testnet := by
  refine ⟨fun a => ⟨parse_raw, fun _ _ => parse_friendly⟩, ?_⟩
  intro text a
  have written : ∀ bounceable testnet,
      Base64.decode (text.toList.map safeChar) = some (a.code bounceable testnet) ↔
        String.ofList (text.toList.map safeChar) = a.friendly bounceable testnet := by
    intro bounceable testnet
    rw [Base64.decode_eq_some_iff, ← toList_friendly, ← String.toList_inj, String.toList_ofList]
  simp only [ofFriendly_eq_ok_iff, written]

end ContractAbi.Address
