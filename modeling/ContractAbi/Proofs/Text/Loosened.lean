import ContractAbi.Proofs.Text.Parts

/-!
# Spaces next to colons

A text is loosened by spaces before and behind some of its colons. Nothing else changes, so that
what stands between two colons is the same in both texts (`Loosened.exists_letters`).
-/

namespace ContractAbi.Text

/-- The second text is the first one with a space before or behind some of its colons. -/
inductive Loosened : List Char → List Char → Prop
  | nil : Loosened [] []
  | char (c : Char) {tight loose : List Char} : Loosened tight loose →
      Loosened (c :: tight) (c :: loose)
  | colon {before after tight loose : List Char} : IsGap before → IsGap after →
      Loosened tight loose → Loosened (':' :: tight) (before ++ ':' :: (after ++ loose))

namespace Loosened

variable {tight tight' loose loose' : List Char}

theorem refl (cs : List Char) : Loosened cs cs := by
  induction cs with
  | nil => exact .nil
  | cons c cs ih => exact .char c ih

theorem append (h : Loosened tight loose) (h' : Loosened tight' loose') :
    Loosened (tight ++ tight') (loose ++ loose') := by
  induction h with
  | nil => exact h'
  | char c _ ih => exact .char c ih
  | colon before after _ ih =>
    have longer := colon before after ih
    simpa only [List.append_assoc, List.cons_append] using longer

theorem eq_nil_iff (h : Loosened tight loose) : loose = [] ↔ tight = [] := by
  cases h <;> simp

theorem eq_nil (h : Loosened [] loose) : loose = [] := h.eq_nil_iff.mpr rfl

/-- What a piece in front has become stands in front. -/
theorem exists_append (h : Loosened (tight ++ tight') loose) :
    ∃ front back, loose = front ++ back ∧ Loosened tight front ∧ Loosened tight' back := by
  induction tight generalizing loose with
  | nil => exact ⟨[], loose, rfl, .nil, h⟩
  | cons c tight ih =>
    rw [List.cons_append] at h
    cases h with
    | char _ rest =>
      obtain ⟨front, back, rfl, first, second⟩ := ih rest
      exact ⟨c :: front, back, rfl, .char c first, second⟩
    | colon before after rest =>
      obtain ⟨front, back, rfl, first, second⟩ := ih rest
      exact ⟨_, back, by simp, .colon before after first, second⟩

/-- A piece without a colon stays as it is. -/
theorem exists_letters {w : List Char} (noColon : ':' ∉ w) (h : Loosened (w ++ tight) loose) :
    ∃ rest, loose = w ++ rest ∧ Loosened tight rest := by
  induction w generalizing loose with
  | nil => exact ⟨loose, rfl, h⟩
  | cons c w ih =>
    rw [List.mem_cons, not_or] at noColon
    rw [List.cons_append] at h
    cases h with
    | char _ behind =>
      obtain ⟨rest, rfl, same⟩ := ih noColon.2 behind
      exact ⟨rest, rfl, same⟩
    | colon => exact absurd rfl noColon.1

end Loosened

end ContractAbi.Text
