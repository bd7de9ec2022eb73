import ContractAbi.Proofs.Cell.Filling

/-!
# Stores that only a full cell refuses

A store that is given a value of its range has one reason to fail: the bits or the references that
the value becomes do not fit behind those that are there (`Store.Fills`).
-/

namespace ContractAbi

namespace Store

variable {b : Builder}

/-- What comes of storing bits and references: they are appended, or there is no room for them. -/
inductive Fills (b : Builder) (bits : List Bool) (refs : List Cell) :
    EStateM.Result CellError Builder Unit → Prop
  | stored {c : Builder} : b.Grows bits refs c → Fills b bits refs (.ok () c)
  | bitOverflow : b.bitsLeft < bits.length →
      Fills b bits refs (.error (.bitOverflow bits.length b.bitsLeft) b)
  | refOverflow : b.refsLeft < refs.length → Fills b bits refs (.error .refOverflow b)

namespace Fills

variable {bits : List Bool} {refs : List Cell} {x : Store}

/-- A store that begins with a check of the room, behind which nothing fails. -/
theorem of_needBits {f : Unit → Store}
    (ok : ∀ {c}, b.Grows bits [] c → (Store.needBits bits.length >>= f) b = .ok () c) :
    Fills b bits [] ((Store.needBits bits.length >>= f) b) := by
  by_cases room : bits.length ≤ b.bitsLeft
  · have grows := Builder.grows_append bits [] room (Nat.zero_le _)
    rw [ok grows]
    exact .stored grows
  · have short := Nat.lt_of_not_le room
    rw [bind_eq_error.mpr (.inl (needBits_eq_error short))]
    exact .bitOverflow short

/-- A check that passes does not show. -/
theorem behind {p : Prop} [Decidable p] {e : CellError} (passed : ¬ p)
    (h : Fills b bits refs (x b)) : Fills b bits refs ((if p then fail e else x : Store) b) := by
  rwa [if_neg passed]

end Fills

variable (b)

theorem bits_fills (xs : List Bool) : Fills b xs [] (bits xs b) := by
  by_cases room : xs.length ≤ b.bitsLeft
  · have grows := Builder.grows_append xs [] room (Nat.zero_le _)
    rw [bits_eq_ok.mpr grows]
    exact .stored grows
  · have short := Nat.lt_of_not_le room
    rw [bits_eq_error short]
    exact .bitOverflow short

/-- A number that fits its width asks for room as its bits do. -/
theorem uint_fills {value width : Nat} (fits : value < 2 ^ width) :
    Fills b (Bits.ofNat width value) [] (uint value width b) :=
  .behind (Nat.not_le_of_lt fits) (bits_fills b _)

theorem int_fills {value : Int} {width : Nat} (positive : width ≠ 0)
    (fits : fitsSigned value width) : Fills b (Bits.ofInt width value) [] (int value width b) :=
  .behind positive (.behind (not_not_intro fits) (bits_fills b _))

/-- Behind its own check of the room nothing of a number behind its length can fail. -/
theorem varUInt_fills {value bound : Nat} (below : Bits.byteSize value < bound)
    (narrow : headerBits bound ≤ 64) :
    Fills b (Bits.ofNat (headerBits bound) (Bits.byteSize value) ++
      Bits.ofNat (Bits.byteSize value * 8) value) [] (varUInt value bound b) := by
  set bits := Bits.ofNat (headerBits bound) (Bits.byteSize value) ++
    Bits.ofNat (Bits.byteSize value * 8) value with isBits
  have length : bits.length = headerBits bound + Bits.byteSize value * 8 := by simp [isBits]
  have whole {c : Builder} (grows : b.Grows bits [] c) : varUInt value bound b = .ok () c :=
    varUInt_eq_ok.mpr ⟨below, narrow, grows⟩
  have positive : bound ≠ 0 := Nat.ne_zero_of_lt below
  simp only [varUInt, if_neg positive, if_neg (Nat.not_le_of_lt below), ← length] at whole ⊢
  exact .of_needBits whole

/-- Nor can anything of an address. -/
theorem address_fills (a : Address) : Fills b (addressBits a) [] (address (some a) b) := by
  have whole {c : Builder} (grows : b.Grows (addressBits a) [] c) :
      address (some a) b = .ok () c := address_some_eq_ok.mpr grows
  simp only [address, ← length_addressBits a] at whole ⊢
  exact .of_needBits whole

theorem noAddress_fills : Fills b [false, false] [] (address none b) := bits_fills b [false, false]

/-- A reference only wants a place. -/
theorem ref_fills (r : Cell) : Fills b [] [r] (ref r b) := by
  by_cases place : 1 ≤ b.refsLeft
  · have grows := Builder.grows_append [] [r] (Nat.zero_le b.bitsLeft) place
    rw [ref_eq_ok.mpr grows]
    exact .stored grows
  · have short := Nat.lt_of_not_le place
    rw [ref_eq_error short]
    exact .refOverflow short

/-- The bits are checked before the references. -/
theorem maybeRef_fills (r : Cell) : Fills b [true] [r] (maybeRef (some r) b) := by
  by_cases room : 1 ≤ b.bitsLeft
  · by_cases place : 1 ≤ b.refsLeft
    · have grows := Builder.grows_append [true] [r] room place
      rw [maybeRef_some_eq_ok.mpr grows]
      exact .stored grows
    · have short := Nat.lt_of_not_le place
      have passed : needBits 1 b = .ok () b := needBits_eq_ok.mpr ⟨room, rfl⟩
      have full : maybeRef (some r) b = .error .refOverflow b :=
        bind_eq_error.mpr (.inr ⟨(), b, passed, bind_eq_error.mpr (.inl (needRefs_eq_error short))⟩)
      rw [full]
      exact .refOverflow short
  · have short := Nat.lt_of_not_le room
    rw [maybeRef, bind_eq_error.mpr (.inl (needBits_eq_error short))]
    exact .bitOverflow short

theorem noCell_fills : Fills b [false] [] (maybeRef none b) := bits_fills b _

/-- A text without characters takes no room at all. -/
theorem emptyText_fills : Fills b [] [] (text "" b) := by
  have empty : "".toUTF8.toList = [] := by simp
  have nothing : b.Grows [] [] b := Builder.grows_nil_iff.mpr rfl
  have stored : text "" b = .ok () b := by
    rw [text_eq_ok_of_le (by simp), empty]
    exact nothing
  rw [stored]
  exact .stored nothing

end Store

end ContractAbi
