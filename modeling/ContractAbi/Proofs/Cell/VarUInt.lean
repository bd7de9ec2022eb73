import ContractAbi.Proofs.Cell.Filling

/-!
# Numbers behind their length

In front of a number of variable length stands how many bytes it takes. From this the load works
out how many bits to read, in a word of 16 bits (`varUInt_eq_ok`). The bits of 8192 bytes and more
cannot be counted in it, so that the count wraps around. A bound above 8192 allows such a length,
and then a number may be read from fewer bytes than its header says. `varUInt_exact_iff` says where
that is.
-/

namespace ContractAbi

open Store (headerBits wordBits)

variable {s t : Slice} {bound v : Nat}

namespace Slice

/-- The length in bytes that the header of a number with this bound encodes. -/
def announced (s : Slice) (bound : Nat) : Nat := Bits.toNat (s.rest.take (headerBits bound))

/-- The number in the next bits behind the header. -/
def behindHeader (s : Slice) (bound bits : Nat) : Nat :=
  Bits.toNat ((s.rest.drop (headerBits bound)).take bits)

/-- The header is left, its length is below the bound, and so many bytes are left behind it. -/
structure HoldsVarUInt (s : Slice) (bound : Nat) : Prop where
  header : headerBits bound ≤ s.bitsLeft
  below : s.announced bound < bound
  body : 8 * s.announced bound ≤ s.bitsLeft - headerBits bound

/-- The header is left, its length is below the bound, and the count of its bits wraps around to
one that is left. -/
structure WrapsVarUInt (s : Slice) (bound : Nat) : Prop where
  header : headerBits bound ≤ s.bitsLeft
  below : s.announced bound < bound
  long : 8192 ≤ s.announced bound
  body : 8 * s.announced bound % 65536 ≤ s.bitsLeft - headerBits bound

/-- The load succeeds exactly where a number is held, gives this number, and moves behind it. -/
def VarUIntExact (s : Slice) (bound : Nat) : Prop :=
  ∀ v t, Load.varUInt bound s = .ok v t ↔ s.HoldsVarUInt bound ∧
    v = s.behindHeader bound (8 * s.announced bound) ∧
    t = s.advance (headerBits bound + 8 * s.announced bound) 0

end Slice

namespace Load

/-- The header of a number of variable length takes at most the 16 bits of its bound. -/
theorem headerBits_le (small : bound ≤ 65535) : headerBits bound ≤ 16 := by
  rw [headerBits, Bits.size_le_iff]
  omega

/-- An encoded length is not changed by the word that it is read into. -/
theorem toNat_announced (small : bound ≤ 65535) :
    (UInt64.ofNat (s.announced bound)).toNat = s.announced bound := by
  have narrow := headerBits_le small
  have short : (s.rest.take (headerBits bound)).length ≤ 64 := by
    rw [List.length_take]
    omega
  exact UInt64.toNat_ofNat_of_lt'
    (Nat.lt_of_lt_of_le (Bits.toNat_lt _) (Nat.pow_le_pow_right (by decide) short))

/-- The number of bytes that the header announces. -/
theorem header_eq_ok_iff (small : bound ≤ 65535) {length : UInt64} :
    u64 (headerBits bound) s = .ok length t ↔ headerBits bound ≤ s.bitsLeft ∧
      length.toNat = s.announced bound ∧ t = s.advance (headerBits bound) 0 := by
  have narrow := headerBits_le small
  have same : length = UInt64.ofNat (s.announced bound) ↔ length.toNat = s.announced bound := by
    rw [← UInt64.toNat_inj, toNat_announced small]
  rw [u64_eq_ok_iff (by omega), ← same]
  rfl

/-- Behind a header with a length below the bound the load reads as many bits as the word counts. -/
theorem varUInt_eq_ok (positive : 0 < bound) (small : bound ≤ 65535) :
    varUInt bound s = .ok v t ↔ headerBits bound ≤ s.bitsLeft ∧ s.announced bound < bound ∧
      wordBits (s.announced bound * 8) ≤ s.bitsLeft - headerBits bound ∧
      v = s.behindHeader bound (wordBits (s.announced bound * 8)) ∧
      t = s.advance (headerBits bound + wordBits (s.announced bound * 8)) 0 := by
  have left : (s.advance (headerBits bound) 0).bitsLeft = s.bitsLeft - headerBits bound := by
    rw [Slice.bitsLeft_eq, Slice.rest_advance, List.length_drop, ← Slice.bitsLeft_eq]
  -- Behind the header the load is that of a number, whatever width the word has come to.
  have body {n : Nat} : uint n (s.advance (headerBits bound) 0) = .ok v t ↔
      n ≤ s.bitsLeft - headerBits bound ∧ v = s.behindHeader bound n ∧
        t = s.advance (headerBits bound + n) 0 := by
    rw [uint_eq_ok_iff, left, Slice.rest_advance, Slice.advance_advance]
    rfl
  unfold varUInt
  rw [if_neg (by omega), atomic_eq_ok, bind_eq_ok]
  constructor
  · rintro ⟨length, r, header, others⟩
    obtain ⟨room, value, rfl⟩ := (header_eq_ok_iff small).mp header
    rw [value] at others
    by_cases below : s.announced bound < bound
    · rw [if_neg (by omega)] at others
      exact ⟨room, below, body.mp others⟩
    · rw [if_pos (by omega)] at others
      cases others
  · rintro ⟨room, below, others⟩
    have value := toNat_announced (s := s) small
    have header := (header_eq_ok_iff small).mpr ⟨room, value, rfl⟩
    refine ⟨UInt64.ofNat (s.announced bound), _, header, ?_⟩
    rw [value, if_neg (by omega)]
    exact body.mpr others

/-- A length whose bits the word can count is read as it stands. -/
theorem varUIntExact_of_lt (positive : 0 < bound) (small : bound ≤ 65535)
    (short : s.announced bound < 8192) : s.VarUIntExact bound := by
  have count : wordBits (s.announced bound * 8) = 8 * s.announced bound := by
    rw [Nat.mul_comm]
    exact Nat.mod_eq_of_lt (by omega)
  intro v t
  rw [varUInt_eq_ok positive small, count]
  constructor
  · rintro ⟨header, below, body, result⟩
    exact ⟨⟨header, below, body⟩, result⟩
  · rintro ⟨held, result⟩
    exact ⟨held.header, held.below, held.body, result⟩

/-- Of a length whose count wraps around, only so many bits are read as the word says. -/
theorem varUInt_of_wraps (positive : 0 < bound) (small : bound ≤ 65535)
    (wraps : s.WrapsVarUInt bound) :
    varUInt bound s = .ok (s.behindHeader bound (8 * s.announced bound % 65536))
      (s.advance (headerBits bound + 8 * s.announced bound % 65536) 0) := by
  rw [varUInt_eq_ok positive small, wordBits, Nat.mul_comm]
  exact ⟨wraps.header, wraps.below, wraps.body, rfl, rfl⟩

/-- If the count does not wrap around, the load is refused where the bytes are not all left. -/
theorem varUIntExact_of_not_wraps (positive : 0 < bound) (small : bound ≤ 65535)
    (whole : ¬ s.WrapsVarUInt bound) : s.VarUIntExact bound := by
  by_cases short : s.announced bound < 8192
  · exact varUIntExact_of_lt positive small short
  · have long : 8192 ≤ s.announced bound := Nat.le_of_not_lt short
    have word : wordBits (s.announced bound * 8) = 8 * s.announced bound % 65536 := by
      rw [wordBits, Nat.mul_comm]
    intro v t
    rw [varUInt_eq_ok positive small, word]
    constructor
    · rintro ⟨header, below, body, -⟩
      exact absurd ⟨header, below, long, body⟩ whole
    · rintro ⟨held, -⟩
      have body := Nat.le_trans (Nat.mod_le _ 65536) held.body
      exact absurd ⟨held.header, held.below, long, body⟩ whole

/-- For every slice and every bound of 16 bits, the load succeeds exactly where its header, a length
below the bound and all bytes of this length are left, and reads just these bytes, unless the count
of their bits wraps around to one that is left. Then the load succeeds and reads no more than that
count. The count never wraps around for a bound up to 8192. -/
theorem varUInt_exact_iff (positive : 0 < bound) (small : bound ≤ 65535) (s : Slice) :
    (s.VarUIntExact bound ↔ ¬ s.WrapsVarUInt bound) ∧
      (s.WrapsVarUInt bound → varUInt bound s =
        .ok (s.behindHeader bound (8 * s.announced bound % 65536))
          (s.advance (headerBits bound + 8 * s.announced bound % 65536) 0)) ∧
      (bound ≤ 8192 → s.VarUIntExact bound) := by
  refine ⟨⟨?_, varUIntExact_of_not_wraps positive small⟩, varUInt_of_wraps positive small, ?_⟩
  · intro faithful wraps
    have long := wraps.long
    obtain ⟨-, -, moved⟩ := (faithful _ _).mp (varUInt_of_wraps positive small wraps)
    have positions := congrArg Slice.bitPos moved
    simp only [Slice.advance] at positions
    omega
  · intro usual
    refine varUIntExact_of_not_wraps positive small ?_
    intro wraps
    exact absurd (Nat.lt_of_lt_of_le wraps.below usual) (Nat.not_lt.mpr wraps.long)

/-- A number of four bytes, with the widest header that there is. -/
def fourBytes : Slice :=
  (Builder.filled [.part ⟨.varUInt 65535, (1000000000 : Nat)⟩]).build.slice

/-- Four bytes behind their length are far from where the word wraps. -/
theorem varUInt_exact_iff_fourBytes :
    0 < 65535 ∧ 65535 ≤ 65535 ∧ fourBytes.announced 65535 = 4 ∧ ¬ fourBytes.WrapsVarUInt 65535 ∧
      fourBytes.VarUIntExact 65535 ∧
      varUInt 65535 fourBytes = .ok 1000000000 (fourBytes.advance 48 0) := by
  have length : fourBytes.announced 65535 = 4 := by decide +kernel
  have whole : ¬ fourBytes.WrapsVarUInt 65535 := by
    intro wraps
    have long := wraps.long
    omega
  have faithful := (varUInt_exact_iff (by decide) (by decide) fourBytes).1.mpr whole
  refine ⟨by decide, by decide, length, whole, faithful, (faithful _ _).mpr ?_⟩
  refine ⟨⟨?_, ?_, ?_⟩, ?_, ?_⟩
  · decide +kernel
  · omega
  · rw [length]
    decide +kernel
  · rw [length]
    decide +kernel
  · rw [length]
    rfl

/-- A header for 8192 bytes, and none of them. -/
def bareHeader : Slice := (Builder.filled [.part ⟨.u64 16, (8192 : UInt64)⟩]).build.slice

/-- Where 8192 bytes are announced, a number is read though no bit is left behind the header. -/
theorem not_varUIntExact_bareHeader :
    bareHeader.announced 65535 = 8192 ∧ bareHeader.bitsLeft = headerBits 65535 ∧
      varUInt 65535 bareHeader = .ok 0 (bareHeader.advance 16 0) ∧
      ¬ bareHeader.VarUIntExact 65535 := by
  have length : bareHeader.announced 65535 = 8192 := by decide +kernel
  have left : bareHeader.bitsLeft = headerBits 65535 := by decide +kernel
  have loaded : varUInt 65535 bareHeader = .ok 0 (bareHeader.advance 16 0) := by
    rw [varUInt_eq_ok (by decide) (by decide), length]
    refine ⟨left.ge, by decide, Nat.zero_le _, ?_, ?_⟩
    · decide +kernel
    · rfl
  refine ⟨length, left, loaded, ?_⟩
  intro faithful
  have body := ((faithful _ _).mp loaded).1.body
  omega

end Load

end ContractAbi
