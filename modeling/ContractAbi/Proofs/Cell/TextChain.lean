import ContractAbi.Proofs.Cell.Hashing
import ContractAbi.Proofs.Wire.Reading

/-!
# Texts in cells of their own

A text that is stored into an empty builder makes a chain of cells with 127 bytes in each but the
last, wherever that divides its characters. All that reads texts gives it back: the load, the bytes
along the chain, and the stack (`text_readBack`).
-/

namespace ContractAbi

open Cell (snake)

namespace Cell

/-- A cell of a chain: whole bytes, as many as there is room for where the chain goes on. -/
structure IsLink (c : Cell) : Prop where
  aligned : c.bits.length % 8 = 0
  bits_le : c.bits.length ≤ 1016
  refs_le : c.refs.length ≤ 1
  full : c.refs ≠ [] → c.bits.length = 1016

/-- Each cell of a text is a link that other readers accept. -/
theorem isLink_snake (bytes : List UInt8) : ∀ c, (snake bytes).Reaches c → c.IsLink := by
  fun_induction snake bytes with
  | case1 bytes short =>
    have size : bytes.length ≤ 127 := short
    have length : (Bits.ofBytes bytes).length = 8 * bytes.length := Bits.length_ofBytes bytes
    have aligned : (Bits.ofBytes bytes).length % 8 = 0 := by omega
    have within : (Bits.ofBytes bytes).length ≤ 1016 := by omega
    intro c way
    obtain rfl | ⟨r, among, -⟩ := Relation.ReflTransGen.cases_head way
    · exact ⟨aligned, within, Nat.zero_le _, fun goesOn => absurd rfl goesOn⟩
    · cases among
  | case2 bytes long ih =>
    have length : (Bits.ofBytes (bytes.take chunkSize)).length = 1016 := by
      have size : 127 < bytes.length := Nat.lt_of_not_le long
      rw [Bits.length_ofBytes, List.length_take, chunkSize]
      omega
    have aligned : (Bits.ofBytes (bytes.take chunkSize)).length % 8 = 0 := by omega
    intro c way
    obtain rfl | ⟨r, among, behind⟩ := Relation.ReflTransGen.cases_head way
    · exact ⟨aligned, length.le, Nat.le_refl _, fun _ => length⟩
    · rw [List.mem_singleton.mp among] at behind
      exact ih c behind

end Cell

namespace Builder

/-- The builder that a text leaves behind when it is stored first. -/
def ofText (t : String) : Builder where
  bits := (snake t.toUTF8.toList).bits
  refs := (snake t.toUTF8.toList).refs
  bits_le := (Cell.built_snake _).limits.1
  refs_le := (Cell.built_snake _).limits.2.1

/-- A text has the chain of cells of its bytes. -/
theorem build_ofText (t : String) : (ofText t).build = snake t.toUTF8.toList := by
  change Cell.mk (snake t.toUTF8.toList).bits (snake t.toUTF8.toList).refs = _
  cases snake t.toUTF8.toList
  rfl

end Builder

/-- In an empty builder a text and the chain behind it have the form of a single chain. -/
theorem Store.text_empty (t : String) : Store.text t Builder.empty = .ok () (.ofText t) := by
  have room : Builder.empty.bitsLeft / 8 = Cell.chunkSize := rfl
  by_cases fits : t.toUTF8.toList.length ≤ Cell.chunkSize
  · have single : snake t.toUTF8.toList = ⟨Bits.ofBytes t.toUTF8.toList, []⟩ := by
      rw [snake, if_pos fits]
    rw [Store.text_eq_ok_of_le (room ▸ fits)]
    exact ⟨congrArg Cell.bits single, congrArg Cell.refs single⟩
  · have chain : snake t.toUTF8.toList = ⟨Bits.ofBytes (t.toUTF8.toList.take Cell.chunkSize),
        [snake (t.toUTF8.toList.drop Cell.chunkSize)]⟩ := by
      rw [snake, if_neg fits]
    rw [Store.text_eq_ok_of_lt (room ▸ Nat.lt_of_not_le fits), room]
    exact ⟨congrArg Cell.bits chain, congrArg Cell.refs chain⟩

/-- Every text can be stored into an empty builder. The load gives it back and leaves nothing, its
bytes are those along the chain, it is read off a stack that has the cell, as a cell or a slice, in
front, and all cells that it takes are links of a chain. -/
theorem text_readBack (t : String) :
    ∃ b, Store.text t Builder.empty = .ok () b ∧
      (∃ s, Load.text b.build.slice = .ok t s ∧ s.bitsLeft = 0 ∧ s.refsLeft = 0) ∧
      b.build.snakeBytes? = some t.toUTF8.toList ∧
      (∀ item, item.cell? = some b.build → ∀ items position,
        Read.text ⟨item :: items, position⟩ = .ok t ⟨items, position + 1⟩) ∧
      ∀ c, b.build.Reaches c → c.IsLink := by
  have stored := Store.text_empty t
  have bytes : (Builder.ofText t).build.snakeBytes? = some t.toUTF8.toList := by
    rw [Builder.build_ofText, Cell.snakeBytes?_snake]
  refine ⟨.ofText t, stored, ?_, bytes, ?_, ?_⟩
  · exact ⟨_, load_text stored, Nat.sub_self _, Nat.sub_self _⟩
  · intro item held items position
    rw [Read.text_of_cell held, bytes]
    simp only [textOfBytes?_toUTF8]
    rfl
  · rw [Builder.build_ofText]
    exact Cell.isLink_snake _

end ContractAbi
