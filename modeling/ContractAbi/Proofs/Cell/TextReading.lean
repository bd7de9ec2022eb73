import ContractAbi.Proofs.Cell.Filling
import ContractAbi.Proofs.Cell.Scanning

/-!
# How a text is read

A text is all bits that are left, and if the cell has no room for another byte, the bits of the
cells that the next reference leads to, each of them the first reference of the one before. The load
first checks that all of these are whole bytes, then takes them, and only then finds out whether
they are UTF-8. So bits that are no whole bytes are refused with nothing taken, and other bytes than
those of a text once all of them are gone (`text_settles_iff`).
-/

namespace ContractAbi

namespace Cell

mutual

/-- The cell, and the cells that its first reference leads to, in order. -/
def chain : Cell → List Cell
  | ⟨bits, refs⟩ => ⟨bits, refs⟩ :: chainOver refs

/-- The chain of the first cell, if there is one. -/
def chainOver : List Cell → List Cell
  | [] => []
  | c :: _ => chain c

end

/-- All of the cells hold whole bytes. -/
def Aligned (cells : List Cell) : Prop := ∀ c ∈ cells, c.bits.length % 8 = 0

instance (cells : List Cell) : Decidable (Aligned cells) :=
  inferInstanceAs (Decidable (∀ c ∈ cells, c.bits.length % 8 = 0))

theorem aligned_nil : Aligned [] := List.forall_mem_nil _

theorem aligned_cons {c : Cell} {cells : List Cell} :
    Aligned (c :: cells) ↔ c.bits.length % 8 = 0 ∧ Aligned cells := List.forall_mem_cons

/-- The bytes of the cells, if all of them hold whole bytes. -/
def bytesOf? (cells : List Cell) : Option (List UInt8) :=
  if Aligned cells then some (cells.flatMap data) else none

theorem bytesOf?_cons (c : Cell) (cells : List Cell) : bytesOf? (c :: cells) =
    if c.bits.length % 8 = 0 then (bytesOf? cells).map (c.data ++ ·) else none := by
  unfold bytesOf?
  by_cases whole : c.bits.length % 8 = 0
  · by_cases others : Aligned cells
    · rw [if_pos (aligned_cons.mpr ⟨whole, others⟩), if_pos whole, if_pos others]
      rfl
    · rw [if_neg fun all => others (aligned_cons.mp all).2, if_pos whole, if_neg others]
      rfl
  · rw [if_neg fun all => whole (aligned_cons.mp all).1, if_neg whole]

mutual

/-- The bytes that run through first references are those of the cells along the chain. -/
theorem snakeBytes?_eq (c : Cell) : c.snakeBytes? = bytesOf? c.chain := by
  obtain ⟨bits, refs⟩ := c
  rw [snakeBytes?, tailBytes?_eq refs, chain, bytesOf?_cons]
  rfl

/-- What follows the first cell of a text is the bytes of its chain. -/
theorem tailBytes?_eq (refs : List Cell) : tailBytes? refs = bytesOf? (chainOver refs) := by
  match refs with
  | [] => rfl
  | c :: refs => exact snakeBytes?_eq c

end

end Cell

namespace Slice

/-- There is no room in the cell for another byte, and a reference is left. -/
def GoesOn (s : Slice) : Prop := s.cell.bits.length + 8 > Cell.maxBits ∧ s.refsLeft > 0

instance (s : Slice) : Decidable s.GoesOn := inferInstanceAs (Decidable (_ ∧ _))

/-- The cells that a text goes on in. -/
def textChain (s : Slice) : List Cell := if s.GoesOn then Cell.chainOver s.restRefs else []

/-- What is left for a text are whole bytes. -/
def TextAligned (s : Slice) : Prop := s.bitsLeft % 8 = 0 ∧ Cell.Aligned s.textChain

instance (s : Slice) : Decidable s.TextAligned := inferInstanceAs (Decidable (_ ∧ _))

/-- The bytes that are left for a text. -/
def textBytes (s : Slice) : List UInt8 := Bits.pack s.rest ++ s.textChain.flatMap Cell.data

/-- The bytes of the cells that a text goes on in, if it does. -/
def chained (s : Slice) : Option (List UInt8) :=
  if s.GoesOn then some (s.textChain.flatMap Cell.data) else none

/-- The slice behind everything that is left for a text. -/
def behindText (s : Slice) : Slice := s.advance s.bitsLeft (if s.GoesOn then 1 else 0)

variable {s : Slice}

theorem GoesOn.exists_ref (goesOn : s.GoesOn) :
    ∃ c more, s.restRefs = c :: more ∧ s.cell.ref? s.refPos = some c ∧ s.textChain = c.chain := by
  have left := goesOn.2
  rw [refsLeft_eq] at left
  obtain ⟨c, more, restRefs⟩ := List.exists_cons_of_length_pos left
  refine ⟨c, more, restRefs, ?_, ?_⟩
  · rw [ref?_refPos, restRefs]
    rfl
  · rw [textChain, if_pos goesOn, restRefs]
    rfl

theorem textChain_of_not_goesOn (ends : ¬ s.GoesOn) : s.textChain = [] := if_neg ends

theorem textBytes_eq (s : Slice) : s.textBytes = Bits.pack s.rest ++ s.chained.getD [] := by
  unfold textBytes chained
  by_cases goesOn : s.GoesOn
  · rw [if_pos goesOn]
    rfl
  · rw [if_neg goesOn, textChain_of_not_goesOn goesOn]
    rfl

theorem behindText_eq (s : Slice) :
    s.behindText = s.advance s.bitsLeft s.chained.toList.length := by
  unfold behindText chained
  by_cases goesOn : s.GoesOn
  · rw [if_pos goesOn, if_pos goesOn]
    rfl
  · rw [if_neg goesOn, if_neg goesOn]
    rfl

end Slice

namespace Load

/-- What is left is refused if it is no whole bytes. It is taken, and refused after that if it is
no text. -/
theorem text_apply (s : Slice) : text s =
    if s.TextAligned then
      match textOfBytes? s.textBytes with
      | some t => .ok t s.behindText
      | none => .error .invalidUtf8 s.behindText
    else .error .notByteAligned s := by
  change (if s.bitsLeft % 8 ≠ 0 then throw .notByteAligned else _ : Load String) s = _
  by_cases whole : s.bitsLeft % 8 = 0
  · rw [if_neg (not_not_intro whole)]
    -- The chain is followed only from a cell that has no room for another byte.
    by_cases goesOn : s.GoesOn
    · obtain ⟨c, more, restRefs, next, chain⟩ := goesOn.exists_ref
      have guard : s.cell.bits.length + 8 > Cell.maxBits ∧ s.refsLeft > 0 := goesOn
      simp only [if_pos guard, next, Option.map_some, Cell.snakeBytes?_eq, Cell.bytesOf?]
      by_cases aligned : Cell.Aligned c.chain
      · have all : s.TextAligned := ⟨whole, chain ▸ aligned⟩
        rw [if_pos all, if_pos aligned, Slice.textBytes, chain, Slice.behindText, if_pos goesOn]
        cases textOfBytes? (Bits.pack s.rest ++ c.chain.flatMap Cell.data) <;> rfl
      · have odd : ¬ s.TextAligned := fun all => aligned (chain ▸ all.2)
        rw [if_neg odd, if_neg aligned]
        rfl
    · have chain : s.textChain = [] := Slice.textChain_of_not_goesOn goesOn
      have all : s.TextAligned := ⟨whole, chain ▸ Cell.aligned_nil⟩
      have guard : ¬ (s.cell.bits.length + 8 > Cell.maxBits ∧ s.refsLeft > 0) := goesOn
      simp only [if_neg guard]
      rw [if_pos all, Slice.textBytes, chain, List.flatMap_nil, List.append_nil, Slice.behindText,
        if_neg goesOn]
      cases textOfBytes? (Bits.pack s.rest) <;> rfl
  · have odd : ¬ s.TextAligned := fun all => whole all.1
    rw [if_pos whole, if_neg odd]
    rfl

/-- When a text is read: all of its links are whole bytes, and these are UTF-8. -/
theorem text_eq_ok_iff {s u : Slice} {t : String} : text s = .ok t u ↔
    s.TextAligned ∧ t.toUTF8.toList = s.textBytes ∧ u = s.behindText := by
  rw [text_apply, ← textOfBytes?_eq_some_iff]
  by_cases aligned : s.TextAligned
  · rw [if_pos aligned]
    cases textOfBytes? s.textBytes <;> simp [aligned, eq_comm]
  · rw [if_neg aligned]
    simp [aligned]

/-- The two ways to fail. A text that is no UTF-8 has been read already. -/
theorem text_eq_error_iff {s u : Slice} {e : CellError} : text s = .error e u ↔
    (¬ s.TextAligned ∧ e = .notByteAligned ∧ u = s) ∨
      s.TextAligned ∧ ¬ IsUtf8 s.textBytes ∧ e = .invalidUtf8 ∧ u = s.behindText := by
  rw [text_apply, ← textOfBytes?_eq_none_iff]
  by_cases aligned : s.TextAligned
  · rw [if_pos aligned]
    cases textOfBytes? s.textBytes <;> simp [aligned, eq_comm]
  · rw [if_neg aligned]
    simp [aligned, eq_comm]

end Load

namespace Scan

/-- The chain is looked through without a move. -/
theorem chainBytes_apply (s : Slice) : chainBytes s =
    if Cell.Aligned s.textChain then .ok s.chained s
    else .error (.refused .notByteAligned) s := by
  change (if s.cell.bits.length + 8 > Cell.maxBits ∧ s.refsLeft > 0 then _ else Pure.pure none :
    Scan (Option (List UInt8))) s = _
  by_cases goesOn : s.GoesOn
  · obtain ⟨c, more, restRefs, next, chain⟩ := goesOn.exists_ref
    have guard : s.cell.bits.length + 8 > Cell.maxBits ∧ s.refsLeft > 0 := goesOn
    rw [if_pos guard, Slice.chained, if_pos goesOn, chain, next]
    simp only [Cell.snakeBytes?_eq, Cell.bytesOf?]
    by_cases aligned : Cell.Aligned c.chain
    · rw [if_pos aligned, if_pos aligned]
      rfl
    · rw [if_neg aligned, if_neg aligned]
      rfl
  · have chain : s.textChain = [] := Slice.textChain_of_not_goesOn goesOn
    have guard : ¬ (s.cell.bits.length + 8 > Cell.maxBits ∧ s.refsLeft > 0) := goesOn
    rw [if_neg guard, Slice.chained, if_neg goesOn, chain, if_pos Cell.aligned_nil]
    rfl

/-- Whole bytes that are left are taken byte for byte. -/
theorem bytes_rest {s : Slice} (whole : s.bitsLeft % 8 = 0) :
    bytes (s.bitsLeft / 8) s = .ok (Bits.pack s.rest) (s.advance s.bitsLeft 0) := by
  have bits : 8 * (s.bitsLeft / 8) = s.bitsLeft := by omega
  have taken := bytes_eq_ok (s := s) (n := s.bitsLeft / 8) bits.le
  rwa [bits, Slice.bitsLeft_eq, List.take_length, ← Slice.bitsLeft_eq] at taken

/-- A text that is read byte for byte is taken and refused like one that is read at once. -/
theorem text_apply (s : Slice) : text s =
    match Load.text s with
    | .ok t u => .ok t u
    | .error e u => .error (.refused e) u := by
  rw [Load.text_apply]
  change (if s.bitsLeft % 8 ≠ 0 then fail .notByteAligned else chainBytes >>= _ : Scan String) s = _
  by_cases whole : s.bitsLeft % 8 = 0
  · rw [if_neg (not_not_intro whole)]
    by_cases aligned : Cell.Aligned s.textChain
    · have all : s.TextAligned := ⟨whole, aligned⟩
      rw [if_pos all]
      change EStateM.bind chainBytes _ s = _
      simp only [EStateM.bind, chainBytes_apply, if_pos aligned]
      change EStateM.bind (bytes (s.bitsLeft / 8)) _ s = _
      simp only [EStateM.bind, bytes_rest whole]
      change (match textOfBytes? (Bits.pack s.rest ++ s.chained.getD []) with
        | some t => Pure.pure t
        | none => fail .invalidUtf8 : Scan String)
          (s.advance s.bitsLeft s.chained.toList.length) = _
      rw [← Slice.textBytes_eq, ← Slice.behindText_eq]
      cases textOfBytes? s.textBytes <;> rfl
    · have odd : ¬ s.TextAligned := fun all => aligned all.2
      have refused := chainBytes_apply s
      rw [if_neg aligned] at refused
      rw [if_neg odd]
      exact bind_eq_error.mpr (.inl refused)
  · have odd : ¬ s.TextAligned := fun all => whole all.1
    rw [if_pos whole, if_neg odd]
    rfl

end Scan

namespace Slice

theorem bitsLeft_behindText (s : Slice) : s.behindText.bitsLeft = 0 := by
  rw [behindText, bitsLeft_eq, rest_advance, List.length_drop, ← bitsLeft_eq, Nat.sub_self]

/-- Where nothing is left to be taken, there is the empty text. -/
theorem isUtf8_of_behindText_eq {s : Slice} (still : s.behindText = s) : IsUtf8 s.textBytes := by
  have bits := congrArg bitPos still
  have refs := congrArg refPos still
  simp only [behindText, advance, Nat.add_eq_left] at bits refs
  have ends : ¬ s.GoesOn := by
    intro goesOn
    rw [if_pos goesOn] at refs
    contradiction
  have none : s.rest = [] := by
    rwa [bitsLeft_eq, List.length_eq_zero_iff] at bits
  refine ⟨"", ?_⟩
  rw [textBytes, none, textChain_of_not_goesOn ends, Bits.pack, toList_eq_toList_data]
  rfl

end Slice

namespace Load

/-- The load takes all bits that are left, or it is refused and stays where it is. -/
def Settles {α : Type} (load : Load α) (s : Slice) : Prop :=
  (∃ v u, load s = .ok v u ∧ u.bitsLeft = 0) ∨ ∃ e, load s = .error e s

/-- From any position in any tree of cells, the load of a text takes all bits or stays where it is,
whatever is wrong, unless what is left are whole bytes that are not UTF-8. Then it is refused with
all of them taken. The same goes for the scan, which looks for no byte that is not there. -/
theorem text_settles_iff (s : Slice) :
    (Settles text s ↔ ¬ (s.TextAligned ∧ ¬ IsUtf8 s.textBytes)) ∧
      (s.TextAligned ∧ ¬ IsUtf8 s.textBytes ↔
        text s = .error .invalidUtf8 s.behindText ∧ s.behindText ≠ s) ∧
      (∀ t u, Scan.text s = .ok t u ↔ text s = .ok t u) ∧
      ∀ fault u, Scan.text s = .error fault u ↔
        ∃ e, fault = .refused e ∧ text s = .error e u := by
  -- What is refused as no text has been taken before, and it is at least one bit.
  have taken : s.TextAligned ∧ ¬ IsUtf8 s.textBytes →
      text s = .error .invalidUtf8 s.behindText ∧ s.behindText ≠ s := by
    rintro ⟨aligned, noText⟩
    exact ⟨text_eq_error_iff.mpr (.inr ⟨aligned, noText, rfl, rfl⟩),
      fun still => noText (Slice.isUtf8_of_behindText_eq still)⟩
  refine ⟨⟨?_, ?_⟩, ⟨taken, ?_⟩, ?_, ?_⟩
  · rintro settles bad
    obtain ⟨refused, moved⟩ := taken bad
    obtain ⟨t, u, loaded, -⟩ | ⟨e, failed⟩ := settles
    · rw [refused] at loaded
      cases loaded
    · rw [refused] at failed
      exact moved (EStateM.Result.error.inj failed).2
  · intro good
    by_cases aligned : s.TextAligned
    · obtain ⟨t, bytes⟩ := not_not.mp fun noText => good ⟨aligned, noText⟩
      exact .inl ⟨t, _, text_eq_ok_iff.mpr ⟨aligned, bytes, rfl⟩, s.bitsLeft_behindText⟩
    · exact .inr ⟨_, text_eq_error_iff.mpr (.inl ⟨aligned, rfl, rfl⟩)⟩
  · rintro ⟨refused, -⟩
    obtain ⟨-, other, -⟩ | ⟨aligned, noText, -⟩ := text_eq_error_iff.mp refused
    · cases other
    · exact ⟨aligned, noText⟩
  · intro t u
    rw [Scan.text_apply]
    cases text s <;> simp
  · intro fault u
    rw [Scan.text_apply]
    cases text s <;> simp [eq_comm]

/-- A byte that no text has. -/
def strayByte : Slice := (Builder.filled [.bytes [255]]).build.slice

/-- The byte is refused, and it is gone. -/
theorem not_settles_strayByte :
    text strayByte = .error .invalidUtf8 (strayByte.advance 8 0) ∧ ¬ Settles text strayByte := by
  have noText : textOfBytes? strayByte.textBytes = none := by decide +kernel
  have aligned : strayByte.TextAligned := by decide +kernel
  have refused : text strayByte = .error .invalidUtf8 (strayByte.advance 8 0) :=
    text_eq_error_iff.mpr (.inr ⟨aligned, textOfBytes?_eq_none_iff.mp noText, rfl, rfl⟩)
  refine ⟨refused, ?_⟩
  unfold Settles
  simp only [refused]
  rintro (⟨t, u, loaded, -⟩ | ⟨e, still⟩)
  · cases loaded
  · cases still

end Load

end ContractAbi
