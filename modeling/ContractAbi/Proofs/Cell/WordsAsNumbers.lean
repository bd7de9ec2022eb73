import ContractAbi.Cell.Fill
import ContractAbi.Proofs.Cell.Positions

/-!
# Words as numbers

Up to 64 bits there are two ways to a number in a cell: as a word, and as a number of any width.
Stores that fill in bit by bit append what the stores of their names do (`Fill.u64_eq` and its
like), and so a word and the number that it holds make the same of a builder and of a slice
(`words_as_numbers`).
-/

namespace ContractAbi

namespace Fill

variable {width : Nat}

/-- Place by place, the bits of a number are written from the highest on. -/
theorem pushPlaces_eq_ok {bit : Nat → Bool} {value : Nat} {b c : Builder}
    (places : ∀ place < width, bit place = value.testBit place)
    (grows : b.Grows (Bits.ofNat width value) [] c) : pushPlaces bit width b = .ok () c := by
  induction width generalizing b with
  | zero =>
    obtain rfl := Builder.grows_nil_iff.mp grows
    rfl
  | succ width ih =>
    have lower := fun place below => places place (Nat.lt_succ_of_lt below)
    have highest := places width (Nat.lt_succ_self width)
    obtain ⟨d, first, rest⟩ :=
      (Builder.grows_append_iff [value.testBit width] (Bits.ofNat width value) [] []).mp grows
    rw [← highest] at first
    exact bind_eq_ok.mpr ⟨(), d, Store.bit_eq_ok.mpr first, ih lower rest⟩

/-- A number for which there is room is filled in like its bits. -/
theorem fillPlaces_eq {bit : Nat → Bool} {value : Nat}
    (places : ∀ place < width, bit place = value.testBit place) :
    (do
      Store.needBits width
      pushPlaces bit width) = Store.bits (Bits.ofNat width value) := by
  funext b
  have length : (Bits.ofNat width value).length = width := Bits.length_ofNat width value
  by_cases room : width ≤ b.bitsLeft
  · have enough : (Bits.ofNat width value).length ≤ b.bitsLeft := length.symm ▸ room
    have grows := Builder.grows_append _ [] enough (Nat.zero_le _)
    rw [Store.bits_eq_ok.mpr grows]
    exact Store.needBits_bind_eq_ok.mpr ⟨room, pushPlaces_eq_ok places grows⟩
  · have short := Nat.lt_of_not_le room
    rw [Store.bits_eq_error (length.symm ▸ short), length]
    exact bind_eq_error.mpr (.inl (Store.needBits_eq_error short))

theorem u64_eq (value : UInt64) (width : Nat) : u64 value width = Store.u64 value width := by
  unfold u64 Store.u64
  by_cases wide : width > 64
  · rw [if_pos wide, if_pos wide]
  have tooLarge : width < 64 ∧ value >>> UInt64.ofNat width ≠ 0 ↔
      value.toNat ≥ Bits.limit width := by
    by_cases inWord : width < 64
    · rw [Ne, Bits.shiftRight_eq_zero_iff inWord, Bits.limit_eq, Nat.not_lt]
      exact and_iff_right inWord
    · obtain rfl : width = 64 := by omega
      exact iff_of_false (fun refused => inWord refused.1) (Nat.not_le_of_lt value.toNat_lt)
  rw [if_neg wide, if_neg wide]
  refine if_congr tooLarge rfl (fillPlaces_eq ?_)
  intro place below
  exact Bits.shiftRight_and_one value (by omega)

theorem uint_eq (value width : Nat) : uint value width = Store.uint value width := by
  have tooLarge : Bits.size value > width ↔ value ≥ Bits.limit width := by
    rw [gt_iff_lt, ← Nat.not_le, Bits.size_le_iff, Nat.not_lt]
    rfl
  exact if_congr tooLarge rfl (fillPlaces_eq fun _ _ => rfl)

/-- The lowest bits of a signed word fit into their width. -/
theorem u64_lowest {raw : UInt64} {value : Int} (narrow : width ≤ 64)
    (lowest : raw.toNat = (value % Bits.limit width).toNat) :
    u64 raw width = Store.bits (Bits.ofInt width value) := by
  have below := Bits.toNat_emod_limit_lt value width
  rw [u64_eq, Store.u64, if_neg (by omega), if_neg (by omega), lowest]
  rfl

theorem i64_eq (value : Int64) (width : Nat) : i64 value width = Store.i64 value width := by
  unfold i64 Store.i64
  by_cases wrong : width = 0 ∨ width > 64
  · rw [if_pos wrong, if_pos wrong]
  have lowest := Bits.toNat_toUInt64_mod value (by omega : width ≤ 64)
  rw [if_neg wrong, if_neg wrong]
  by_cases whole : width = 64
  · subst whole
    have fits : Store.fitsSigned value.toInt 64 := ⟨value.le_toInt, value.toInt_lt⟩
    have masked : (value.toUInt64 &&& 0xFFFFFFFFFFFFFFFF).toNat = value.toUInt64.toNat % 2 ^ 64 :=
      Nat.and_two_pow_sub_one_eq_mod _ 64
    rw [if_pos rfl, if_neg (not_not_intro fits)]
    exact u64_lowest (Nat.le_refl _) (masked.trans lowest)
  · have tooFar : value < -(1 <<< Int64.ofNat (width - 1)) ∨
        value ≥ 1 <<< Int64.ofNat (width - 1) ↔ ¬ Store.fitsSigned value.toInt width := by
      have inWord : width - 1 < 63 := by omega
      rw [ge_iff_le, Int64.lt_iff_toInt_lt, Int64.le_iff_toInt_le, Bits.toInt_one_shiftLeft inWord,
        Bits.toInt_neg_one_shiftLeft inWord, Store.fitsSigned, Bits.limit_eq]
      omega
    have masked := Bits.toNat_and_lowest value.toUInt64 (by omega : width < 64)
    rw [if_neg whole]
    exact if_congr tooFar rfl (u64_lowest (by omega) (masked.trans lowest))

/-- A number in range that is made positive is the one that its two's complement form stands for. -/
theorem toNat?_wrapped {value : Int} (fits : Store.fitsSigned value width) :
    (if value < 0 then value + (1 <<< width : Nat) else value).toNat? =
      some (value % Bits.limit width).toNat := by
  have narrower : 2 ^ (width - 1) ≤ 2 ^ width := Nat.pow_le_pow_right (by decide) (by omega)
  obtain ⟨low, high⟩ := fits
  rw [Bits.limit_eq] at low high
  rw [Nat.one_shiftLeft]
  apply Int.mem_toNat?.mpr
  by_cases negative : value < 0
  · have wraps : value % Bits.limit width = value + Bits.limit width := by
      apply Bits.emod_limit_of_neg _ negative
      rw [Bits.limit_eq]
      omega
    rw [if_pos negative, wraps, Bits.limit_eq]
    omega
  · have plain : value % Bits.limit width = value := by
      rw [Bits.limit_eq]
      exact Int.emod_eq_of_lt (by omega) (by omega)
    rw [if_neg negative, plain]
    omega

theorem int_eq (value : Int) (width : Nat) : int value width = Store.int value width := by
  have tooFar : value < -((1 <<< (width - 1) : Nat) : Int) ∨ value ≥ (1 <<< (width - 1) : Nat) ↔
      ¬ Store.fitsSigned value width := by
    rw [Nat.one_shiftLeft, Store.fitsSigned, Bits.limit_eq]
    omega
  unfold int Store.int
  by_cases zero : width = 0
  · rw [if_pos zero, if_pos zero]
  rw [if_neg zero, if_neg zero]
  by_cases fits : Store.fitsSigned value width
  · have below := Bits.toNat_emod_limit_lt value width
    rw [if_neg (mt tooFar.mp (not_not_intro fits)), if_neg (not_not_intro fits)]
    simp only [toNat?_wrapped fits]
    rw [uint_eq, Store.uint, if_neg (Nat.not_le_of_lt below)]
    rfl
  · rw [if_pos (tooFar.mpr fits), if_pos fits]

end Fill

/-- What is made of bits matters only for as many bits as are loaded. -/
theorem Load.map_bits_congr {α : Type} {f g : List Bool → α} {width : Nat}
    (same : ∀ bits, bits.length = width → f bits = g bits) :
    (do return f (← bits width) : Load α) = do return g (← bits width) := by
  funext s
  change EStateM.bind (bits width) (fun xs => pure (f xs)) s =
    EStateM.bind (bits width) (fun xs => pure (g xs)) s
  unfold EStateM.bind
  by_cases short : s.bitsLeft < width
  · rw [bits_eq_error short]
  · have room : width ≤ s.bitsLeft := Nat.le_of_not_lt short
    have length : (s.rest.take width).length = width := ScansBits.length_take room
    rw [bits_eq_ok room]
    change (pure (f _) : Load α) _ = (pure (g _) : Load α) _
    rw [same _ length]

namespace Scan

/-- From a position on, bits that are there are put behind those of a word. -/
theorem peekBits_eq_ok {s : Slice} {offset n : Nat} (value : UInt64)
    (inside : offset + n ≤ s.cell.bitLength) :
    peekBits offset n value s = .ok (some (((s.cell.bits.drop offset).take n).foldl
      (fun value bit => value <<< 1 ||| bit.toUInt64) value)) s := by
  induction n generalizing offset value with
  | zero => rfl
  | succ n ih =>
    have here : offset < s.cell.bits.length := by
      rw [Cell.bitLength] at inside
      omega
    have behind : offset + 1 + n ≤ s.cell.bitLength := by omega
    have found : s.cell.bit? offset = some s.cell.bits[offset] := List.getElem?_eq_getElem here
    rw [peekBits, bind_eq_ok]
    refine ⟨_, s, peek_apply s offset, ?_⟩
    rw [found, List.drop_eq_getElem_cons here, List.take_succ_cons, List.foldl_cons]
    exact ih _ behind

/-- Bit by bit the same number is found as at once. -/
theorem peekU64_apply (s : Slice) (offset width : Nat) :
    peekU64 offset width s = .ok ((s.cell.readU64? offset width).map UInt64.ofNat) s := by
  change (if _ then _ else _ : Scan _) s = _
  unfold Cell.readU64?
  by_cases refused : width > 64 ∨ offset + width > s.cell.bitLength
  · rw [if_pos refused, if_pos refused]
    rfl
  · rw [if_neg refused, if_neg refused, peekBits_eq_ok 0 (by omega), Bits.foldl_shift_or]
    rfl

end Scan

/-- Scans that make the same of so many bits are the same. -/
theorem ScansBits.unique {α : Type} {width : Nat} {f : List Bool → α} {x y : Scan α}
    (first : ScansBits width f x) (second : ScansBits width f y) : x = y := by
  funext s
  rw [first s, second s]

/-- A word is stored in so many bits like the number that it holds, and is filled in like it. -/
structure StoresAlike (width : Nat) : Prop where
  unsigned : ∀ value : UInt64, Store.u64 value width = Store.uint value.toNat width
  signed : ∀ value : Int64, Store.i64 value width = Store.int value.toInt width
  fillUnsigned : ∀ value : UInt64, Fill.u64 value width = Fill.uint value.toNat width
  fillSigned : ∀ value : Int64, Fill.i64 value width = Fill.int value.toInt width

/-- A word is loaded from so many bits like the number that it holds, and is scanned like it. What
is looked up in a cell is what can be loaded from there. -/
structure LoadsAlike (width : Nat) : Prop where
  unsigned : UInt64.toNat <$> Load.u64 width = Load.uint width
  signed : Int64.toInt <$> Load.i64 width = Load.int width
  scanUnsigned : UInt64.toNat <$> Scan.u64 width = Scan.uint width
  scanSigned : Int64.toInt <$> Scan.i64 width = Scan.int width
  lookUp : ∀ s : Slice, s.Inside → ∀ n, s.cell.readU64? s.bitPos width = some n ↔
    ∃ value t, Load.u64 width s = .ok value t ∧ value.toNat = n
  peek : ∀ s : Slice, s.Inside → ∀ value, Scan.peekU64 s.bitPos width s = .ok (some value) s ↔
    ∃ t, Scan.u64 width s = .ok value t

variable {width : Nat}

/-- Words of at most 64 bits are stored as numbers are. -/
theorem storesAlike (narrow : width ≤ 64) : StoresAlike width := by
  have unsigned (value : UInt64) : Store.u64 value width = Store.uint value.toNat width := by
    unfold Store.u64 Store.uint
    rw [if_neg (by omega)]
  have signed (value : Int64) : Store.i64 value width = Store.int value.toInt width := by
    have wrong : width = 0 ∨ width > 64 ↔ width = 0 := by omega
    exact if_congr wrong rfl rfl
  exact
    { unsigned
      signed
      fillUnsigned := fun value => by rw [Fill.u64_eq, Fill.uint_eq, unsigned]
      fillSigned := fun value => by rw [Fill.i64_eq, Fill.int_eq, signed] }

/-- In a slice that is inside of its cell, bits can be looked up if they are left. -/
theorem Slice.readU64?_eq {s : Slice} (inside : s.Inside) (narrow : width ≤ 64) :
    s.cell.readU64? s.bitPos width =
      if width > s.bitsLeft then none else some (Bits.toNat (s.rest.take width)) := by
  have refused : width > 64 ∨ s.bitPos + width > s.cell.bitLength ↔ width > s.bitsLeft := by
    have bitPos_le := inside.1
    unfold Slice.bitsLeft Cell.bitLength
    omega
  exact if_congr refused rfl rfl

/-- What is looked up at the position of a slice is the number that can be loaded from there. -/
theorem Slice.readU64?_eq_some_iff {s : Slice} (inside : s.Inside) (narrow : width ≤ 64) {n : Nat} :
    s.cell.readU64? s.bitPos width = some n ↔
      ∃ value t, Load.u64 width s = .ok value t ∧ value.toNat = n := by
  simp only [Slice.readU64?_eq inside narrow, Load.u64_eq_ok_iff narrow]
  by_cases short : width > s.bitsLeft
  · rw [if_pos short]
    exact iff_of_false nofun fun ⟨_, _, loaded, _⟩ => Nat.not_le_of_lt short loaded.1
  · have room : width ≤ s.bitsLeft := Nat.le_of_not_lt short
    have length : (s.rest.take width).length = width := ScansBits.length_take room
    have word := Bits.toNat_ofNat_word (length.trans_le narrow)
    rw [if_neg short, Option.some_inj]
    constructor
    · intro number
      exact ⟨_, _, ⟨room, rfl, rfl⟩, word.trans number⟩
    · intro ⟨_, _, ⟨_, loaded, _⟩, number⟩
      rw [← number, loaded, word]

theorem Scan.peekU64_eq_ok_iff {s : Slice} (inside : s.Inside) (narrow : width ≤ 64)
    {value : UInt64} :
    Scan.peekU64 s.bitPos width s = .ok (some value) s ↔
      ∃ t, Scan.u64 width s = .ok value t := by
  rw [Scan.peekU64_apply, Slice.readU64?_eq inside narrow, Scan.scansBits_u64 narrow s]
  by_cases short : width > s.bitsLeft
  · simp [short]
  · simp [short]

/-- Words of at most 64 bits are loaded as numbers are. -/
theorem loadsAlike (narrow : width ≤ 64) : LoadsAlike width where
  unsigned := by
    unfold Load.u64 Load.uint
    rw [if_neg (by omega), map_bind]
    simp only [map_pure]
    apply Load.map_bits_congr
    intro bits length
    exact Bits.toNat_ofNat_word (by omega)
  signed := by
    unfold Load.i64 Load.int
    by_cases zero : width = 0
    · rw [if_pos (.inl zero), if_pos zero]
      rfl
    · rw [if_neg (by omega), if_neg zero, map_bind]
      simp only [map_pure]
      apply Load.map_bits_congr
      intro bits length
      exact Bits.toInt_ofInt_word (by omega) (by omega)
  scanUnsigned := by
    refine ScansBits.unique ((Scan.scansBits_u64 narrow).map ?_) (Scan.scansBits_uint width)
    intro bits length
    exact Bits.toNat_ofNat_word (by omega)
  scanSigned := by
    by_cases zero : width = 0
    · subst zero
      rfl
    · refine ScansBits.unique ((Scan.scansBits_i64 zero narrow).map ?_) (Scan.scansBits_int zero)
      intro bits length
      exact Bits.toInt_ofInt_word (by omega) (by omega)
  lookUp _ inside _ := Slice.readU64?_eq_some_iff inside narrow
  peek _ inside _ := Scan.peekU64_eq_ok_iff inside narrow

/-- For every width of at most 64 bits, stores and loads of words are those of numbers. -/
theorem words_as_numbers (narrow : width ≤ 64) : StoresAlike width ∧ LoadsAlike width :=
  ⟨storesAlike narrow, loadsAlike narrow⟩

/-- The lowest number of 64 bits, for which words shift by nothing and numbers by the width. -/
theorem words_as_numbers_lowest :
    64 ≤ 64 ∧ Store.i64 Int64.minValue 64 .empty = Store.int (-2 ^ 63) 64 .empty ∧
      Fill.i64 Int64.minValue 64 .empty = Fill.int (-2 ^ 63) 64 .empty ∧
      (Int64.toInt <$> Load.i64 64) (Cell.slice ⟨Bits.ofInt 64 (-2 ^ 63), []⟩) =
        Load.int 64 (Cell.slice ⟨Bits.ofInt 64 (-2 ^ 63), []⟩) := by
  have whole := words_as_numbers (Nat.le_refl 64)
  refine ⟨Nat.le_refl 64, ?_, ?_, ?_⟩
  · rw [whole.1.signed, Int64.toInt_minValue]
  · rw [whole.1.fillSigned, Int64.toInt_minValue]
  · rw [whole.2.signed]

end ContractAbi
