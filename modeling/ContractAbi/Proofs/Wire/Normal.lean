import ContractAbi.Proofs.Contract.Query
import ContractAbi.Proofs.Wire.Widths

/-!
# Results in normal form

A read gives an entry out in a normal form of its category: truth values become numbers or numbers
truth values, and cells become addresses or texts. Normal forms are read as they are, and are taken
as arguments of their category (`Read.category_normal`), so that what one read gives out can be
passed on to whatever asks for a value of this category.
-/

namespace ContractAbi

variable {c : Category} {item v w : WireValue} {rest : List WireValue} {p : Nat} {t : Stack}

namespace Category

/-- What is given out is a value of the category in the form that it already has. -/
theorem Reads.self (reads : c.Reads item v) : c.Reads v v := by
  cases reads with
  | integer number range => exact .integer rfl range
  | varUInt number range => exact .varUInt rfl range
  | bool b => exact .bool b
  | boolOfInt n => exact .bool _
  | noAddress => exact .noAddress
  | address a => exact .address a
  | @addressOfCell _ _ a held read =>
    -- A cell may say that there is no address, which is then the null entry.
    cases a with
    | none => exact .noAddress
    | some a => exact .address a
  | addressOfText read => exact .address _
  | text s => exact .text s
  | textOfCell held whole read => exact .text _
  | cell held => exact .cell rfl
  | slice held => exact .slice rfl
  | builder held => exact .builder rfl
  | absent inner => exact .absent inner
  | present held => exact .present rfl
  | either left right => exact .either left right _
  | unknown raw => exact .unknown raw _

/-- What is given out is taken as an argument. -/
theorem Reads.inputFault?_eq_none (reads : c.Reads item v) : c.inputFault? v = none := by
  cases reads with
  | integer number range => exact inputFault?_integer.mpr range
  | varUInt number range => exact if_pos range
  | @addressOfCell _ _ a held read => cases a <;> rfl
  | _ => rfl

end Category

/-- A read that succeeds takes one entry and gives out a normal form: the same read gives it out
again, whatever stands behind it, and an input of the category takes it. -/
theorem Read.category_normal (read : Read.category c ⟨item :: rest, p⟩ = .ok w t) :
    t = ⟨rest, p + 1⟩ ∧
      (∀ more q, Read.category c ⟨w :: more, q⟩ = .ok w ⟨more, q + 1⟩) ∧
      c.inputFault? w = none := by
  obtain ⟨first, items, position, reads⟩ := Read.category_eq_ok.mp read
  obtain ⟨left, behind⟩ := t
  obtain ⟨rfl, rfl⟩ := List.cons.inj items
  refine ⟨?_, ?_, ?_⟩
  · exact congrArg (Stack.mk rest) position
  · intro more q
    exact Read.category_of_reads reads.self
  · exact reads.inputFault?_eq_none

/-- A cell that says that there is no address is read as the null entry, which is read as it is. -/
theorem Read.category_normal_noAddress :
    Read.category .address ⟨[.slice ⟨[false, false], []⟩, .text "memo"], 0⟩ =
        .ok .null ⟨[.text "memo"], 1⟩ ∧
      Read.category .address ⟨[.null], 4⟩ = .ok .null ⟨[], 5⟩ ∧
      Category.address.inputFault? .null = none := by
  have read : Read.category .address ⟨[.slice ⟨[false, false], []⟩, .text "memo"], 0⟩ =
      .ok .null ⟨[.text "memo"], 1⟩ := rfl
  have normal := Read.category_normal read
  exact ⟨read, normal.2.1 [] 4, normal.2.2⟩

end ContractAbi
