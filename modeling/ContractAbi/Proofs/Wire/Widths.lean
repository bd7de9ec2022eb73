import ContractAbi.Proofs.Cell.WordsAsNumbers
import ContractAbi.Proofs.Wire.Reading

/-!
# Numbers of so many bits

Whether there is room for a number is seen in three ways: by the bits that it takes (`fits`), by a
comparison with half of what a width tells apart (`Fill.int`), and by the bits of a number that is
not negative (`Fill.uint`). For every width of a cell they are one condition (`checks_range`), and
so an argument or a result is held to what the body of a message can carry.
-/

namespace ContractAbi

variable {v : Int} {width : Nat} {signed : Bool}

/-- A cell can begin with the number in so many bits, as these stores write it. -/
def Carried (int : Int → Nat → Store) (uint : Nat → Nat → Store) (width : Nat) (signed : Bool)
    (v : Int) : Prop :=
  if signed then ∃ b, int v width .empty = .ok () b
  else 0 ≤ v ∧ ∃ b, uint v.toNat width .empty = .ok () b

/-- Every check of an integer of so many bits accepts the number just if it is in range. -/
structure Checks (width : Nat) (signed : Bool) (v : Int) (range : Prop) : Prop where
  fits_iff : fits v width signed = true ↔ range
  stored_iff : Carried Store.int Store.uint width signed v ↔ range
  filled_iff : Carried Fill.int Fill.uint width signed v ↔ range
  argument_iff : (Category.integer width signed).inputFault? (.int v) = none ↔ range
  result_iff : ∀ rest p, Read.category (.integer width signed) ⟨.int v :: rest, p⟩ =
    .ok (.int v) ⟨rest, p + 1⟩ ↔ range
  field_iff : (∃ store b, (Category.integer width signed).storeOp.store? (.int v) = some store ∧
    store .empty = .ok () b) ↔ range

/-- Integer arguments pass just where they are in range. -/
theorem inputFault?_integer :
    (Category.integer width signed).inputFault? (.int v) = none ↔ InRange width signed v := by
  rw [← fits_iff]
  change (if fits v width signed then none else some _) = none ↔ _
  cases fits v width signed <;> simp

/-- An empty builder has room for the width. -/
theorem exists_grows_empty {bits : List Bool} (length : bits.length = width)
    (narrow : width ≤ 1023) : ∃ b, Builder.empty.Grows bits [] b := by
  have room : bits.length ≤ Builder.empty.bitsLeft := length.trans_le narrow
  exact ⟨_, Builder.grows_append bits [] room (Nat.zero_le _)⟩

/-- A cell is wide enough for the width, so that only the number decides. -/
theorem int_empty_iff (positive : 1 ≤ width) (narrow : width ≤ 1023) :
    (∃ b, Store.int v width .empty = .ok () b) ↔ InRange width true v := by
  have room := exists_grows_empty (Bits.length_ofInt width v) narrow
  have nonzero : width ≠ 0 := by omega
  simp only [Store.int_eq_ok, exists_and_left, room, and_true, fitsSigned_iff nonzero]
  exact and_iff_right nonzero

theorem uint_empty_iff (narrow : width ≤ 1023) :
    (0 ≤ v ∧ ∃ b, Store.uint v.toNat width .empty = .ok () b) ↔ InRange width false v := by
  have room := exists_grows_empty (Bits.length_ofNat width v.toNat) narrow
  have bound : v.toNat < 2 ^ width ↔ v < 2 ^ width := by
    rw [Int.toNat_lt' (Nat.two_pow_pos width)]
    push_cast
    rfl
  simp only [Store.uint_eq_ok, exists_and_left, room, and_true, bound]
  rfl

/-- The stores carry just the numbers of the width. -/
theorem carried_iff (positive : 1 ≤ width) (narrow : width ≤ 1023) :
    Carried Store.int Store.uint width signed v ↔ InRange width signed v := by
  cases signed with
  | true => exact int_empty_iff positive narrow
  | false => exact uint_empty_iff narrow

/-- A field is stored by the stores of numbers, and only if it is not signed they are asked whether
the number is negative. -/
theorem field_iff_carried :
    (∃ store b, (Category.integer width signed).storeOp.store? (.int v) = some store ∧
      store .empty = .ok () b) ↔ Carried Store.int Store.uint width signed v := by
  cases signed with
  | true => simp [Category.storeOp, StoreOp.store?, Carried]
  | false => simp [Category.storeOp, StoreOp.store?, Carried]

/-- All checks of a width agree. -/
theorem checks_inRange (positive : 1 ≤ width) (narrow : width ≤ 1023) :
    Checks width signed v (InRange width signed v) where
  fits_iff := fits_iff
  stored_iff := carried_iff positive narrow
  filled_iff := by
    rw [funext₂ Fill.int_eq, funext₂ Fill.uint_eq]
    exact carried_iff positive narrow
  argument_iff := inputFault?_integer
  result_iff := by
    intro rest p
    constructor
    · intro read
      obtain ⟨item, items, -, reads⟩ := Read.category_eq_ok.mp read
      cases items
      cases reads with
      | integer number range =>
        cases number
        exact range
    · intro range
      exact Read.category_of_reads (.integer rfl range)
  field_iff := field_iff_carried.trans (carried_iff positive narrow)

/-- Whether there is room for a number in so many bits, from one to those of a whole cell, is the
same question for the check of a stack, for the stores of a message body and for the range that
two's complement or an unsigned number has. -/
theorem checks_range (v : Int) (positive : 1 ≤ width) (narrow : width ≤ 1023) :
    Checks width true v (-2 ^ (width - 1) ≤ v ∧ v < 2 ^ (width - 1)) ∧
      Checks width false v (0 ≤ v ∧ v < 2 ^ width) := by
  have nonzero : width ≠ 0 := by omega
  have signedRange : InRange width true v = (-2 ^ (width - 1) ≤ v ∧ v < 2 ^ (width - 1)) := by
    simp [InRange, nonzero]
  rw [← signedRange]
  exact ⟨checks_inRange positive narrow, checks_inRange positive narrow⟩

/-- A signed byte begins at -128, and 128 is the first number that is too large for it. -/
theorem checks_range_byte :
    (1 ≤ 8 ∧ 8 ≤ 1023) ∧
      (fits (-128) 8 true = true ∧ Carried Store.int Store.uint 8 true (-128)) ∧
      ¬ fits 128 8 true = true ∧ ¬ Carried Store.int Store.uint 8 true 128 ∧
      Carried Store.int Store.uint 8 false 128 := by
  have positive : 1 ≤ 8 := by decide
  have narrow : 8 ≤ 1023 := by decide
  have low := (checks_range (-128) positive narrow).1
  have high := checks_range 128 positive narrow
  refine ⟨⟨positive, narrow⟩, ⟨?_, ?_⟩, ?_, ?_, ?_⟩
  · exact low.fits_iff.mpr (by decide)
  · exact low.stored_iff.mpr (by decide)
  · exact mt high.1.fits_iff.mp (by decide)
  · exact mt high.1.stored_iff.mp (by decide)
  · exact high.2.stored_iff.mpr (by decide)

end ContractAbi
