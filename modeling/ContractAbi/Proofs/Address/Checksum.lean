import ContractAbi.Address.Checksum
import ContractAbi.Proofs.Cell.Packing

/-!
# What a checksum detects

The register takes in the bits of the bytes one at a time. Moving it on is linear and loses nothing
(`step_xor`, `step_injective`), so two bit sequences that part ways are never brought together again
by the same bits behind them. And up to sixteen bits fit side by side into the register, so they
cannot cancel each other: sequences that differ within so many neighbouring bits leave different
registers behind (`eq_of_takeBits_eq`).
-/

namespace ContractAbi.Checksum

open Bits (ofNat ofBytes)

theorem and_high_eq_zero {crc : UInt16} : crc &&& 0x8000 = 0 ↔ crc.toBitVec.msb = false := by
  have high : (0x8000 : UInt16).toBitVec = BitVec.twoPow 16 15 := rfl
  rw [← UInt16.toBitVec_inj, UInt16.toBitVec_and, high, BitVec.and_twoPow,
    BitVec.msb_eq_getLsbD_last]
  cases crc.toBitVec.getLsbD (16 - 1) <;> decide

/-- A step as an operation on bits. -/
theorem toBitVec_step (crc : UInt16) :
    (step crc).toBitVec =
      (crc.toBitVec <<< 1) ^^^ (if crc.toBitVec.msb then 0x1021#16 else 0#16) := by
  unfold step
  by_cases high : crc &&& 0x8000 = 0
  · simp [high, and_high_eq_zero.mp high]
  · have set : crc.toBitVec.msb = true := by simpa [and_high_eq_zero] using high
    simp [high, set]

/-- Steps are linear. -/
theorem step_xor (x y : UInt16) : step (x ^^^ y) = step x ^^^ step y := by
  apply UInt16.toBitVec_inj.mp
  rw [UInt16.toBitVec_xor, toBitVec_step, toBitVec_step, toBitVec_step, UInt16.toBitVec_xor,
    BitVec.shiftLeft_xor_distrib, BitVec.msb_xor]
  have swap : ∀ u v p q : BitVec 16, (u ^^^ p) ^^^ (v ^^^ q) = (u ^^^ v) ^^^ (p ^^^ q) := by
    intro u v p q
    ac_rfl
  rw [swap]
  cases x.toBitVec.msb <;> cases y.toBitVec.msb <;> simp

/-- The polynomial has a constant term, so that what is shifted out is not lost. -/
theorem step_eq_zero {x : UInt16} (zero : step x = 0) : x = 0 := by
  have bits := congrArg UInt16.toBitVec zero
  rw [toBitVec_step] at bits
  have low := congrArg (BitVec.getLsbD · 0) bits
  have clear : x.toBitVec.msb = false := by
    cases set : x.toBitVec.msb
    · rfl
    · simp [set] at low
  apply UInt16.toBitVec_inj.mp
  apply BitVec.eq_of_getLsbD_eq
  intro i inside
  by_cases last : i = 15
  · rw [last, ← BitVec.msb_eq_getLsbD_last, clear]
    rfl
  · have shifted := congrArg (BitVec.getLsbD · (i + 1)) bits
    have next : i + 1 < 16 := by omega
    simpa [clear, next, inside] using shifted

/-- No step loses anything that was in the register. -/
theorem step_injective {x y : UInt16} (same : step x = step y) : x = y := by
  have zero : step (x ^^^ y) = 0 := by rw [step_xor, same, UInt16.xor_self]
  exact UInt16.xor_eq_zero_iff.mp (step_eq_zero zero)

theorem steps_injective {n : Nat} {x y : UInt16} (same : steps n x = steps n y) : x = y := by
  induction n generalizing x y with
  | zero => exact same
  | succ n ih => exact step_injective (ih same)

/-- An empty register stays empty. -/
theorem steps_zero (n : Nat) : steps n 0 = 0 := by
  induction n with
  | zero => rfl
  | succ n ih => exact ih

/-- A bit at the upper end of the register. -/
def high (bit : Bool) : UInt16 := if bit then 0x8000 else 0

theorem getMsbD_high (bit : Bool) (i : Nat) :
    (high bit).toBitVec.getMsbD i = (decide (i = 0) && bit) := by
  cases bit with
  | false => simp [high]
  | true =>
    have set : (high true).toBitVec = BitVec.twoPow 16 15 := rfl
    rw [set, BitVec.getMsbD_twoPow]
    by_cases first : i = 0 <;> simp [first]

/-- Takes in one bit. -/
def takeBit (crc : UInt16) (bit : Bool) : UInt16 := step (crc ^^^ high bit)

/-- Takes in bits one after the other. -/
def takeBits (crc : UInt16) (bits : List Bool) : UInt16 := bits.foldl takeBit crc

theorem takeBits_append (crc : UInt16) (xs ys : List Bool) :
    takeBits crc (xs ++ ys) = takeBits (takeBits crc xs) ys := List.foldl_append

theorem takeBit_injective {x y : UInt16} {bit : Bool} (same : takeBit x bit = takeBit y bit) :
    x = y := (UInt16.xor_left_inj _).mp (step_injective same)

/-- The same bits keep different registers apart. -/
theorem takeBits_injective {x y : UInt16} {bits : List Bool}
    (same : takeBits x bits = takeBits y bits) : x = y := by
  induction bits generalizing x y with
  | nil => exact same
  | cons bit bits ih => exact takeBit_injective (ih same)

/-- Bits from the upper end of the register on. -/
def aligned : List Bool → UInt16
  | [] => 0
  | bit :: bits => high bit ^^^ (aligned bits >>> 1)

theorem getMsbD_aligned (bits : List Bool) (i : Nat) :
    (aligned bits).toBitVec.getMsbD i = (decide (i < 16) && bits[i]?.getD false) := by
  induction bits generalizing i with
  | nil => simp [aligned]
  | cons bit bits ih =>
    have shifted : (aligned bits >>> 1).toBitVec = (aligned bits).toBitVec >>> 1 := rfl
    rw [aligned, UInt16.toBitVec_xor, BitVec.getMsbD_xor, getMsbD_high, shifted,
      BitVec.getMsbD_ushiftRight]
    cases i with
    | zero => simp
    | succ i =>
      by_cases inside : i + 1 < 16
      · have before : i < 16 := by omega
        simp [ih, inside, before]
      · simp [inside]

/-- Bits that do not fill the register move on by one place as they are. -/
theorem step_shiftRight {bits : List Bool} (short : bits.length < 16) :
    step (aligned bits >>> 1) = aligned bits := by
  have shifted : (aligned bits >>> 1).toBitVec = (aligned bits).toBitVec >>> 1 := rfl
  have clear : ((aligned bits).toBitVec >>> 1).msb = false := by simp
  apply UInt16.toBitVec_inj.mp
  apply BitVec.eq_of_getMsbD_eq
  intro i inside
  rw [toBitVec_step, shifted, clear, BitVec.getMsbD_xor, BitVec.getMsbD_shiftLeft,
    BitVec.getMsbD_ushiftRight, getMsbD_aligned, getMsbD_aligned]
  by_cases last : i = 15
  · subst last
    have behind : bits[15]? = none := List.getElem?_eq_none (by omega)
    simp [behind]
  · have next : i + 1 < 16 := by omega
    simp [next, inside]

/-- Up to sixteen bits can be laid over the register before it moves on. -/
theorem takeBits_eq_steps {crc : UInt16} {bits : List Bool} (short : bits.length ≤ 16) :
    takeBits crc bits = steps bits.length (crc ^^^ aligned bits) := by
  induction bits generalizing crc with
  | nil => simp [takeBits, steps, aligned]
  | cons bit bits ih =>
    have fewer : bits.length < 16 := short
    have first : takeBits crc (bit :: bits) = takeBits (takeBit crc bit) bits := rfl
    rw [first, ih (Nat.le_of_lt fewer), List.length_cons, steps, aligned, takeBit,
      ← UInt16.xor_assoc, step_xor _ (aligned bits >>> 1), step_shiftRight fewer]

/-- Up to sixteen bits are all seen in the register. -/
theorem aligned_injective {xs ys : List Bool} (length : xs.length = ys.length)
    (short : xs.length ≤ 16) (same : aligned xs = aligned ys) : xs = ys := by
  apply List.ext_getElem length
  intro i hx hy
  have bit := congrArg (BitVec.getMsbD ·.toBitVec i) same
  have inside : i < 16 := by omega
  simpa [getMsbD_aligned, inside, hx, hy] using bit

/-- Sequences that differ within sixteen neighbouring bits leave different registers behind. -/
theorem eq_of_takeBits_eq {crc : UInt16} {front xs ys back : List Bool}
    (length : xs.length = ys.length) (short : xs.length ≤ 16)
    (same : takeBits crc (front ++ xs ++ back) = takeBits crc (front ++ ys ++ back)) : xs = ys := by
  rw [takeBits_append, takeBits_append crc (front ++ ys), takeBits_append, takeBits_append] at same
  have before := takeBits_injective same
  have short' : ys.length ≤ 16 := length ▸ short
  rw [takeBits_eq_steps short, takeBits_eq_steps short', length] at before
  have laid := (UInt16.xor_right_inj _).mp (steps_injective before)
  exact aligned_injective length short laid

/-- Sixteen bits fill the register. -/
theorem aligned_ofNat (n : Nat) : aligned (ofNat 16 n) = UInt16.ofNat n := by
  apply UInt16.toBitVec_inj.mp
  apply BitVec.eq_of_getMsbD_eq
  intro i inside
  have place : 16 - 1 - i < 16 := by omega
  have word : (UInt16.ofNat n).toBitVec = BitVec.ofNat 16 n := rfl
  rw [getMsbD_aligned, Bits.getElem?_ofNat, word, BitVec.getMsbD, BitVec.getLsbD_ofNat]
  simp only [inside, place, if_pos, Option.getD_some, decide_true, Bool.true_and]

theorem aligned_byte (byte : UInt8) : aligned (ofNat 8 byte.toNat) = byte.toUInt16 <<< 8 := by
  have all : ∀ n < 256, aligned (ofNat 8 n) = (UInt8.ofNat n).toUInt16 <<< 8 := by decide +kernel
  rw [all byte.toNat byte.toNat_lt, UInt8.ofNat_toNat]

theorem takeByte_eq_takeBits (crc : UInt16) (byte : UInt8) :
    takeByte crc byte = takeBits crc (ofNat 8 byte.toNat) := by
  rw [takeBits_eq_steps (by simp), aligned_byte, Bits.length_ofNat, takeByte]

/-- The checksum takes the bits of the bytes one after the other. -/
theorem crc16_eq_takeBits (bytes : List UInt8) : crc16 bytes = takeBits 0 (ofBytes bytes) := by
  have run : ∀ crc, bytes.foldl takeByte crc = takeBits crc (ofBytes bytes) := by
    induction bytes with
    | nil => exact fun crc => rfl
    | cons byte bytes ih =>
      intro crc
      rw [List.foldl_cons, ih, Bits.ofBytes_cons, takeBits_append, takeByte_eq_takeBits]
  exact run 0

/-- The two bytes of a checksum are its sixteen bits. -/
theorem ofBytes_bytes (crc : UInt16) : ofBytes (bytes crc) = ofNat 16 crc.toNat := by
  have split := Bits.ofNat_append 8 8 crc.toNat
  rw [bytes, Bits.ofBytes_cons, Bits.ofBytes_cons, Bits.ofNat_toNat_ofNat, Bits.ofNat_toNat_ofNat]
  simpa [ofBytes] using split.symm

/-- With its checksum behind it, a byte sequence leaves nothing in the register. -/
theorem crc16_append_bytes (body : List UInt8) : crc16 (body ++ bytes (crc16 body)) = 0 := by
  rw [crc16_eq_takeBits, Bits.ofBytes_append, takeBits_append, ← crc16_eq_takeBits, ofBytes_bytes,
    takeBits_eq_steps (by simp), aligned_ofNat, UInt16.ofNat_toNat, UInt16.xor_self, steps_zero]

end ContractAbi.Checksum
