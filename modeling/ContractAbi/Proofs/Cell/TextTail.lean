import ContractAbi.Proofs.Cell.TextReading

/-!
# References behind a text

The load of a text cannot see where the text ends. In a cell without room for another byte it takes
the next reference for the rest of the text. That is right if the store ran out of room, but a text
may also end just there, and what stands behind it is then read as a part of it (`text_of_full`). In
all other cases a text and the references behind it are read back as they were stored
(`loadParts_textThenRefs_iff`).
-/

namespace ContractAbi

open Cell (snake)

variable {b c final : Builder} {s u : Slice} {t : String} {cells : List Cell}

/-- A reference to a cell. -/
def Part.refTo (c : Cell) : Part := ⟨.ref, c⟩

/-- A text, and references to cells behind it. -/
def textThenRefs (t : String) (cells : List Cell) : List Part :=
  ⟨.text, t⟩ :: cells.map Part.refTo

/-- References are stored behind each other, if there is room for all of them. -/
theorem storeParts_refs_iff :
    storeParts (cells.map Part.refTo) b = .ok () final ↔ b.Grows [] cells final := by
  induction cells generalizing b with
  | nil => exact Store.pure_eq_ok.trans Builder.grows_nil_iff.symm
  | cons c cells ih =>
    rw [List.map_cons, storeParts_cons]
    constructor
    · rintro ⟨d, first, others⟩
      have first : Store.ref c b = .ok () d := first
      exact (Store.ref_eq_ok.mp first).trans (ih.mp others)
    · intro grows
      obtain ⟨d, first, others⟩ := (Builder.grows_append_iff [] [] [c] cells).mp grows
      exact ⟨d, Store.ref_eq_ok.mpr first, ih.mpr others⟩

/-- A text for which there is room, and references behind it. -/
theorem storeParts_textThenRefs_of_le (fits : t.toUTF8.toList.length ≤ b.bitsLeft / 8) :
    storeParts (textThenRefs t cells) b = .ok () final ↔
      b.Grows (Bits.ofBytes t.toUTF8.toList) cells final := by
  have parts := Builder.grows_append_iff (b := b) (d := final) (Bits.ofBytes t.toUTF8.toList) []
    [] cells
  rw [List.append_nil, List.nil_append] at parts
  rw [textThenRefs, storeParts_cons, parts]
  simp only [storeParts_refs_iff, ← Store.text_eq_ok_of_le fits (u := ())]
  rfl

/-- Any other text, and references behind that to its chain. -/
theorem storeParts_textThenRefs_of_lt (long : b.bitsLeft / 8 < t.toUTF8.toList.length) :
    storeParts (textThenRefs t cells) b = .ok () final ↔
      b.Grows (Bits.ofBytes (t.toUTF8.toList.take (b.bitsLeft / 8)))
        (snake (t.toUTF8.toList.drop (b.bitsLeft / 8)) :: cells) final := by
  have parts := Builder.grows_append_iff (b := b) (d := final)
    (Bits.ofBytes (t.toUTF8.toList.take (b.bitsLeft / 8))) []
    [snake (t.toUTF8.toList.drop (b.bitsLeft / 8))] cells
  rw [List.append_nil, List.singleton_append] at parts
  rw [textThenRefs, storeParts_cons, parts]
  simp only [storeParts_refs_iff, ← Store.text_eq_ok_of_lt long (u := ())]
  rfl

/-- References to these cells are loaded if they are next. -/
theorem loadParts_refs_iff :
    loadParts ((cells.map Part.refTo).map (·.kind)) s = .ok (cells.map Part.refTo) u ↔
      cells <+: s.restRefs ∧ u = s.advance 0 cells.length := by
  -- By induction on the cells: each load takes the first of the references that are left.
  induction cells generalizing s with
  | nil =>
    change EStateM.Result.ok [] s = .ok [] u ↔ _
    simp [Slice.advance, eq_comm]
  | cons c cells ih =>
    have behind : (s.advance 0 1).restRefs = s.restRefs.tail := by
      rw [Slice.restRefs_advance, List.drop_one]
    have moved : (s.advance 0 1).advance 0 cells.length = s.advance 0 (cells.length + 1) := by
      rw [Slice.advance_advance, Nat.add_comm 1]
    rw [List.map_cons, loadParts_cons]
    constructor
    · rintro ⟨r, first, others⟩
      obtain ⟨head, rfl⟩ := Load.ref_eq_ok_iff.mp first
      obtain ⟨next, rfl⟩ := ih.mp others
      obtain ⟨more, restRefs⟩ := List.head?_eq_some_iff.mp head
      rw [behind, restRefs] at next
      rw [restRefs]
      exact ⟨(List.prefix_cons_inj _).mpr next, moved⟩
    · rintro ⟨⟨more, restRefs⟩, rfl⟩
      rw [← restRefs] at behind
      refine ⟨_, Load.ref_eq_ok_iff.mpr ⟨?_, rfl⟩, ih.mpr ⟨?_, moved.symm⟩⟩
      · rw [← restRefs]
        rfl
      · rw [behind]
        exact List.prefix_append ..

/-- In a cell without room for another byte a text goes on in whatever cell is referred to next. -/
theorem text_of_full {r : Cell} {more : List Cell} {v : String}
    (bits : s.rest = Bits.ofBytes t.toUTF8.toList) (full : Cell.maxBits < s.cell.bits.length + 8)
    (next : s.restRefs = r :: more) :
    Load.text s = .ok v u ↔ Cell.Aligned r.chain ∧
      v.toUTF8.toList = t.toUTF8.toList ++ r.chain.flatMap Cell.data ∧
      u = s.advance s.bitsLeft 1 := by
  have goesOn : s.GoesOn := by
    refine ⟨full, ?_⟩
    rw [Slice.refsLeft_eq, next]
    exact Nat.succ_pos _
  have chain : s.textChain = r.chain := by
    rw [Slice.textChain, if_pos goesOn, next]
    rfl
  have whole : s.bitsLeft % 8 = 0 := Decidable.not_not.mp (Slice.aligned_of_rest bits)
  rw [Load.text_eq_ok_iff, Slice.TextAligned, Slice.textBytes, Slice.behindText, chain, bits,
    Bits.pack_ofBytes, if_pos goesOn, and_iff_right whole]

/-- The text is inside the cell as a whole, and behind it there is no room for another byte. -/
def EndsFull (b final : Builder) (t : String) : Prop :=
  t.toUTF8.toList.length ≤ b.bitsLeft / 8 ∧ final.bitsLeft < 8

/-- Wherever a builder stands, a text and references that are stored behind it are loaded from there
as they were stored, if there are no references, or the text is not inside the cell as a whole, or
there is room for another byte behind it. In the one case that is left they are not. -/
theorem loadParts_textThenRefs_iff
    (stored : storeParts (textThenRefs t cells) b = .ok () final) :
    (∃ u, loadParts ((textThenRefs t cells).map (·.kind)) (final.sliceFrom b) =
      .ok (textThenRefs t cells) u) ↔ cells = [] ∨ ¬ EndsFull b final t := by
  obtain ⟨c, first, others⟩ := storeParts_cons.mp stored
  have behind := storeParts_refs_iff.mp others
  constructor
  · rintro ⟨u, readBack⟩
    obtain ⟨r, loaded, rest⟩ := loadParts_cons.mp readBack
    obtain ⟨next, -⟩ := loadParts_refs_iff.mp rest
    refine or_iff_not_imp_right.mpr fun ends => ?_
    obtain ⟨fits, full⟩ := not_not.mp ends
    have both := (storeParts_textThenRefs_of_le fits).mp stored
    cases cells with
    | nil => rfl
    | cons d more =>
      -- One reference has gone into the text, so that too few are left.
      obtain ⟨-, -, rfl⟩ := (text_of_full both.rest_sliceFrom (Builder.full_iff.mpr full)
        both.restRefs_sliceFrom).mp loaded
      rw [Slice.restRefs_advance, both.restRefs_sliceFrom] at next
      exact absurd next.length_le (Nat.not_succ_le_self _)
  · intro apart
    have loaded : Load.text (final.sliceFrom b) = .ok t (final.sliceFrom c) := by
      by_cases fits : t.toUTF8.toList.length ≤ b.bitsLeft / 8
      · refine load_text_of_le fits first behind (apart.imp_right fun ends => ?_)
        refine Nat.not_lt.mp fun full => ends ⟨fits, ?_⟩
        rwa [behind.bitsLeft_eq]
      · exact load_text_of_lt (Nat.lt_of_not_le fits) first behind
    have next : cells <+: (final.sliceFrom c).restRefs :=
      ⟨[], (List.append_nil cells).trans behind.restRefs_sliceFrom.symm⟩
    exact ⟨_, loadParts_cons.mpr ⟨_, loaded, loadParts_refs_iff.mpr ⟨next, rfl⟩⟩⟩

/-- A builder with room for seven bytes. -/
def sevenBytesLeft : Builder := Builder.filled [.bytes (List.replicate 120 0)]

/-- A text that goes on in a chain, and two references behind it. -/
theorem loadParts_textThenRefs_iff_chained :
    ∃ final, storeParts (textThenRefs "examples" [.empty, .empty]) sevenBytesLeft = .ok () final ∧
      ¬ EndsFull sevenBytesLeft final "examples" ∧
      ∃ u, loadParts ((textThenRefs "examples" [.empty, .empty]).map (·.kind))
        (final.sliceFrom sevenBytesLeft) = .ok (textThenRefs "examples" [.empty, .empty]) u := by
  have long : sevenBytesLeft.bitsLeft / 8 < "examples".toUTF8.toList.length := by decide +kernel
  obtain ⟨final, grows⟩ := Builder.exists_grows_iff.mpr
    (⟨by decide +kernel, by decide +kernel⟩ :
      (Bits.ofBytes ("examples".toUTF8.toList.take (sevenBytesLeft.bitsLeft / 8))).length ≤
          sevenBytesLeft.bitsLeft ∧
        (snake ("examples".toUTF8.toList.drop (sevenBytesLeft.bitsLeft / 8)) ::
          [.empty, .empty]).length ≤ sevenBytesLeft.refsLeft)
  have stored := (storeParts_textThenRefs_of_lt long).mpr grows
  have apart : ¬ EndsFull sevenBytesLeft final "examples" := by
    intro ends
    exact Nat.not_lt.mpr ends.1 long
  exact ⟨final, stored, apart, (loadParts_textThenRefs_iff stored).mpr (.inr apart)⟩

/-- The letter that is referred to behind the text is read as its last one. -/
theorem not_loadParts_textThenRefs_plural :
    ∃ final, storeParts (textThenRefs "example" [snake [115]]) sevenBytesLeft = .ok () final ∧
      (∃ u, Load.text (final.sliceFrom sevenBytesLeft) = .ok "examples" u) ∧
      ¬ ∃ u, loadParts ((textThenRefs "example" [snake [115]]).map (·.kind))
        (final.sliceFrom sevenBytesLeft) = .ok (textThenRefs "example" [snake [115]]) u := by
  have fits : "example".toUTF8.toList.length ≤ sevenBytesLeft.bitsLeft / 8 := by decide +kernel
  obtain ⟨final, grows⟩ := Builder.exists_grows_iff.mpr
    (⟨by decide +kernel, by decide +kernel⟩ :
      (Bits.ofBytes "example".toUTF8.toList).length ≤ sevenBytesLeft.bitsLeft ∧
        [snake [115]].length ≤ sevenBytesLeft.refsLeft)
  -- The seven letters leave no room for another one, so that the text is read on behind the
  -- reference.
  have full : final.bitsLeft < 8 := by
    rw [grows.bitsLeft_eq]
    decide +kernel
  have letters : "examples".toUTF8.toList = "example".toUTF8.toList ++ [115] := by decide +kernel
  have chain : Cell.Aligned (snake [115]).chain ∧
      (snake [115]).chain.flatMap Cell.data = [115] := by decide +kernel
  rw [← chain.2] at letters
  have loaded := (text_of_full grows.rest_sliceFrom (Builder.full_iff.mpr full)
    grows.restRefs_sliceFrom).mpr ⟨chain.1, letters, rfl⟩
  refine ⟨final, (storeParts_textThenRefs_of_le fits).mpr grows, ⟨_, loaded⟩, ?_⟩
  rintro ⟨u, readBack⟩
  obtain ⟨r, asStored, -⟩ := loadParts_cons.mp readBack
  have same := (EStateM.Result.ok.inj (loaded.symm.trans asStored)).1
  exact absurd same (by decide)

end ContractAbi
