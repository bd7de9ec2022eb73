import Mathlib.Tactic.Ring
import ContractAbi.Proofs.Cell.Packing

/-!
# Numbers bit by bit

A scan makes a number out of bits by shifts. What comes of a shift and an addition for each bit is
the number that the bits stand for (`foldl_shift_add`), also in a word, as long as it is wide enough
or the number is cut off (`foldl_shift_or`). A sign comes out of a word that is shifted up and back
(`shift_back`) or out of the highest bit (`sub_limit_of_testBit`). The other way, the bits of a word
are shifted down and masked one by one (`shiftRight_and_one`), and a mask cuts off all but the
lowest ones (`toNat_and_lowest`), which are those of a two's complement form (`toNat_toUInt64_mod`).
-/

namespace ContractAbi.Bits

/-- Shifting bits in gives their number. -/
theorem foldl_shift_add (bits : List Bool) :
    bits.foldl (fun value bit => value <<< 1 + bit.toNat) 0 = toNat bits := by
  simp only [toNat, Nat.shiftLeft_eq, Nat.pow_one, Nat.mul_comm 2]

/-- What does not fit into a word is shifted out of it. -/
theorem shift_or_toUInt64 (n : Nat) (bit : Bool) :
    UInt64.ofNat n <<< 1 ||| bit.toUInt64 = UInt64.ofNat (2 * n + bit.toNat) := by
  have shifted : (UInt64.ofNat n <<< 1).toNat = 2 * (n % 2 ^ 63) := by
    rw [UInt64.toNat_shiftLeft, UInt64.toNat_ofNat']
    simp [Nat.shiftLeft_eq]
    omega
  have low : bit.toUInt64.toNat = bit.toNat := by cases bit <;> rfl
  have small : bit.toNat < 2 ^ 1 := by cases bit <;> decide
  have disjoint := Nat.two_pow_add_eq_or_of_lt small (n % 2 ^ 63)
  rw [Nat.pow_one] at disjoint
  rw [← UInt64.toNat_inj, UInt64.toNat_or, shifted, low, UInt64.toNat_ofNat', ← disjoint]
  omega

/-- The same in a word of 64 bits, where what is shifted out is lost. -/
theorem foldl_shift_or (bits : List Bool) :
    bits.foldl (fun (value : UInt64) bit => value <<< 1 ||| bit.toUInt64) 0 =
      UInt64.ofNat (toNat bits) := by
  have behind : ∀ n, bits.foldl (fun (value : UInt64) bit => value <<< 1 ||| bit.toUInt64)
      (UInt64.ofNat n) = UInt64.ofNat (bits.foldl (fun n b => 2 * n + b.toNat) n) := by
    induction bits with
    | nil => exact fun _ => rfl
    | cons bit bits ih =>
      intro n
      rw [List.foldl_cons, shift_or_toUInt64, ih, List.foldl_cons]
  exact behind 0

/-- A word is wide enough for the number that 64 bits or fewer stand for. -/
theorem toNat_ofNat_word {bits : List Bool} (narrow : bits.length ≤ 64) :
    (UInt64.ofNat (toNat bits)).toNat = toNat bits := by
  have small := toNat_lt bits
  have fits : 2 ^ bits.length ≤ UInt64.size := Nat.pow_le_pow_right (by decide) narrow
  exact UInt64.toNat_ofNat_of_lt' (by omega)

/-- Signed numbers of a width are in the range of the width. -/
theorem toInt_bounds {bits : List Bool} {width : Nat} (length : bits.length = width + 1) :
    -(2 ^ width : Int) ≤ toInt bits ∧ toInt bits < 2 ^ width := by
  obtain _ | ⟨bit, low⟩ := bits
  · contradiction
  obtain rfl : low.length = width := by simpa using length
  have below : (toNat low : Int) < 2 ^ low.length := by exact_mod_cast toNat_lt low
  rw [toInt_cons]
  cases bit <;> simp <;> omega

/-- A signed word is wide enough for what 64 bits or fewer stand for in two's complement. -/
theorem toInt_ofInt_word {bits : List Bool} (positive : bits.length ≠ 0)
    (narrow : bits.length ≤ 64) : (Int64.ofInt (toInt bits)).toInt = toInt bits := by
  obtain ⟨width, length⟩ : ∃ width, bits.length = width + 1 := ⟨bits.length - 1, by omega⟩
  obtain ⟨low, high⟩ := toInt_bounds length
  have half : (2 : Int) ^ width ≤ 2 ^ 63 := by
    have : 2 ^ width ≤ 2 ^ 63 := Nat.pow_le_pow_right (by decide) (by omega)
    exact_mod_cast this
  exact Int64.toInt_ofInt_of_le (by omega) (by omega)

/-- The two readings of bits differ by a multiple of what the bits cannot hold. -/
theorem exists_toNat_eq (bits : List Bool) :
    ∃ c : Int, (toNat bits : Int) = toInt bits + c * 2 ^ bits.length := by
  obtain _ | ⟨bit, low⟩ := bits
  · exact ⟨0, rfl⟩
  · refine ⟨bit.toNat, ?_⟩
    rw [toInt_cons, List.length_cons, toNat_cons, Int.pow_succ]
    push_cast
    ring

/-- Bits at the upper end of a word have the sign that they have on their own. -/
theorem bmod_shifted {bits : List Bool} {width room : Nat} (length : bits.length = width + 1)
    (whole : width + room = 63) :
    ((toNat bits : Int) * 2 ^ room).bmod (2 ^ 64) = toInt bits * 2 ^ room := by
  obtain ⟨c, wraps⟩ := exists_toNat_eq bits
  obtain ⟨low, high⟩ := toInt_bounds length
  have pos : (0 : Int) < 2 ^ room := by exact_mod_cast Nat.two_pow_pos room
  have half : (2 : Int) ^ width * 2 ^ room = 2 ^ 63 := by rw [← Int.pow_add, whole]
  have all : (2 : Int) ^ bits.length * 2 ^ room = (2 ^ 64 : Nat) := by
    rw [length, Int.pow_succ, Int.mul_right_comm, half]
    rfl
  rw [wraps, Int.add_mul, Int.mul_assoc, all, Int.add_mul_bmod_self_right]
  apply Int.bmod_eq_of_le
  · have low := Int.mul_le_mul_of_nonneg_right low (Int.le_of_lt pos)
    rw [Int.neg_mul, half] at low
    exact low
  · have high := Int.mul_lt_mul_of_pos_right high pos
    rw [half] at high
    exact high

/-- The amount of a shift is taken as it is if it is smaller than the word. -/
theorem toNat_amount {n : Nat} (inWord : n < 64) : (UInt64.ofNat n).toNat % 64 = n := by
  have small : n < UInt64.size := Nat.lt_trans inWord (by decide)
  rw [UInt64.toNat_ofNat_of_lt' small, Nat.mod_eq_of_lt inWord]

/-- The same for signed words. -/
theorem toNat_signedAmount {n : Nat} (inWord : n < 64) :
    ((Int64.ofNat n).toBitVec.smod 64).toNat = n := by
  have amounts : ∀ n < 64, ((BitVec.ofNat 64 n).smod 64).toNat = n := by decide +kernel
  exact amounts n inWord

theorem toInt_shiftLeft {bits : List Bool} {width room : Nat} (length : bits.length = width + 1)
    (whole : width + room = 63) :
    (UInt64.ofNat (toNat bits) <<< UInt64.ofNat room).toInt64.toInt = toInt bits * 2 ^ room := by
  have amount : ((UInt64.ofNat room).toBitVec % 64).toNat = room := by
    rw [BitVec.toNat_umod]
    exact toNat_amount (by omega)
  have number : (UInt64.ofNat (toNat bits)).toBitVec.toNat = toNat bits :=
    toNat_ofNat_word (by omega)
  rw [← bmod_shifted length whole, ← Int64.toInt_toBitVec, UInt64.toBitVec_toInt64,
    UInt64.toBitVec_shiftLeft, BitVec.shiftLeft_eq', amount, BitVec.toInt_shiftLeft, number,
    Nat.shiftLeft_eq]
  push_cast
  rfl

/-- Shifted up and back, bits spread their sign over the word. -/
theorem shift_back {bits : List Bool} (positive : bits.length ≠ 0) (narrow : bits.length ≤ 64) :
    (UInt64.ofNat (toNat bits) <<< UInt64.ofNat (64 - bits.length)).toInt64 >>>
      Int64.ofNat (64 - bits.length) = Int64.ofInt (toInt bits) := by
  obtain ⟨width, length⟩ : ∃ width, bits.length = width + 1 := ⟨bits.length - 1, by omega⟩
  obtain ⟨room, whole⟩ : ∃ room, width + room = 63 := ⟨63 - width, by omega⟩
  have shift : 64 - bits.length = room := by omega
  have inWord : room < 64 := by omega
  have pos : (0 : Int) < 2 ^ room := by exact_mod_cast Nat.two_pow_pos room
  rw [shift, ← Int64.toInt_inj, ← Int64.toInt_toBitVec, Int64.toBitVec_shiftRight,
    BitVec.sshiftRight_eq', BitVec.toInt_sshiftRight, Int64.toInt_toBitVec,
    toInt_shiftLeft length whole, toNat_signedAmount inWord, Int.shiftRight_eq_div_pow,
    toInt_ofInt_word positive narrow]
  exact Int.mul_ediv_cancel _ (Int.ne_of_gt pos)

/-- The highest bit tells whether a number is negative in two's complement. -/
theorem sub_limit_of_testBit {bits : List Bool} (positive : bits.length ≠ 0) :
    (if (toNat bits).testBit (bits.length - 1) then (toNat bits : Int) - limit bits.length
      else toNat bits) = toInt bits := by
  obtain _ | ⟨bit, low⟩ := bits
  · contradiction
  · rw [List.length_cons, Nat.add_sub_cancel, testBit_toNat_cons]
    cases bit <;> rfl

variable {value : UInt64} {width place : Nat}

theorem toNat_shiftRight (value : UInt64) (inWord : place < 64) :
    (value >>> UInt64.ofNat place).toNat = value.toNat >>> place := by
  rw [UInt64.toNat_shiftRight, toNat_amount inWord]

/-- Nothing is left of a number that is shifted by a width that it fits into. -/
theorem shiftRight_eq_zero_iff (inWord : width < 64) :
    value >>> UInt64.ofNat width = 0 ↔ value.toNat < 2 ^ width := by
  rw [← UInt64.toNat_inj, toNat_shiftRight value inWord, Nat.shiftRight_eq_div_pow]
  exact Nat.div_eq_zero_iff_lt (Nat.two_pow_pos width)

/-- A mask of one leaves the bit that has been shifted down to the lowest place. -/
theorem shiftRight_and_one (value : UInt64) (inWord : place < 64) :
    (value >>> UInt64.ofNat place &&& 1 == 1) = value.toNat.testBit place := by
  have lowest : (value >>> UInt64.ofNat place &&& 1).toNat = value.toNat >>> place % 2 := by
    rw [UInt64.toNat_and, toNat_shiftRight value inWord, UInt64.toNat_one, Nat.and_one_is_mod]
  rw [Nat.testBit, Nat.and_comm, Nat.and_one_is_mod, ← lowest, Bool.eq_iff_iff, beq_iff_eq,
    bne_iff_ne, ← UInt64.toNat_inj, lowest, UInt64.toNat_one]
  omega

theorem toNat_one_shiftLeft (inWord : width < 64) :
    ((1 : UInt64) <<< UInt64.ofNat width).toNat = 2 ^ width := by
  have fits : 2 ^ width < 2 ^ 64 := Nat.pow_lt_pow_right (by decide) inWord
  rw [UInt64.toNat_shiftLeft, toNat_amount inWord, UInt64.toNat_one, Nat.one_shiftLeft,
    Nat.mod_eq_of_lt fits]

/-- One less than the first bit above a width is the mask of all bits of the width. -/
theorem toNat_and_lowest (value : UInt64) (inWord : width < 64) :
    (value &&& (1 <<< UInt64.ofNat width - 1)).toNat = value.toNat % 2 ^ width := by
  have positive : 1 ≤ (1 : UInt64) <<< UInt64.ofNat width := by
    rw [UInt64.le_iff_toNat_le, toNat_one_shiftLeft inWord, UInt64.toNat_one]
    exact Nat.one_le_two_pow
  rw [UInt64.toNat_and, UInt64.toNat_sub_of_le _ _ positive, toNat_one_shiftLeft inWord,
    UInt64.toNat_one, Nat.and_two_pow_sub_one_eq_mod]

theorem toNat_emod_limit_lt (value : Int) (width : Nat) :
    (value % limit width).toNat < limit width := by
  have positive : (0 : Int) < limit width := by exact_mod_cast Nat.two_pow_pos width
  have below := Int.emod_lt_of_pos value positive
  omega

/-- The lowest bits of a signed word are those of its number in two's complement. -/
theorem toNat_toUInt64_mod (value : Int64) (narrow : width ≤ 64) :
    value.toUInt64.toNat % 2 ^ width = (value.toInt % limit width).toNat := by
  have dvd : ((2 ^ width : Nat) : Int) ∣ (2 ^ 64 : Nat) :=
    Int.natCast_dvd_natCast.mpr (Nat.pow_dvd_pow 2 narrow)
  have word : value.toInt = (value.toUInt64.toNat : Int).bmod (2 ^ 64) :=
    BitVec.toInt_eq_toNat_bmod value.toBitVec
  rw [limit_eq, word, ← Int.emod_emod_of_dvd _ dvd, Int.bmod_emod, Int.emod_emod_of_dvd _ dvd]
  rfl

/-- The sign bit of a narrower number is a word above zero. -/
theorem toInt_one_shiftLeft (inWord : place < 63) :
    ((1 : Int64) <<< Int64.ofNat place).toInt = (2 ^ place : Nat) := by
  have fits : 2 ^ place < 2 ^ 63 := Nat.pow_lt_pow_right (by decide) inWord
  have positive := Nat.two_pow_pos place
  rw [← Int64.toInt_toBitVec, Int64.toBitVec_shiftLeft, BitVec.shiftLeft_eq',
    toNat_signedAmount (by omega), BitVec.toInt_shiftLeft]
  change ((1 <<< place : Nat) : Int).bmod (2 ^ 64) = _
  rw [Nat.one_shiftLeft]
  exact Int.bmod_eq_of_le (by omega) (by omega)

theorem toInt_neg_one_shiftLeft (inWord : place < 63) :
    (-((1 : Int64) <<< Int64.ofNat place)).toInt = -(2 ^ place : Nat) := by
  have fits : 2 ^ place < 2 ^ 63 := Nat.pow_lt_pow_right (by decide) inWord
  have positive := Nat.two_pow_pos place
  rw [Int64.toInt_neg, toInt_one_shiftLeft inWord]
  exact Int.bmod_eq_of_le (by omega) (by omega)

end ContractAbi.Bits
