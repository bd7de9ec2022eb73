import ContractAbi.Proofs.Text.Parts
import ContractAbi.Text.Ascii

/-!
# The width of runs of spaces

Two texts are the same but for the width of their runs of spaces (`SameButWidth`). Only the space
itself is meant here: other blanks are letters. Both texts have the same words, and they start and
end with the same letters. A text whose only blanks are spaces differs from its squeezed form in
nothing but the width of the runs, and in the blanks around it (`sameButWidth_squeeze`).
-/

namespace ContractAbi.Text

/-- Texts that differ only in how wide the runs of spaces in them are. -/
inductive SameButWidth : List Char → List Char → Prop
  | nil : SameButWidth [] []
  | letter {c : Char} {cs ds : List Char} : c ≠ ' ' → SameButWidth cs ds →
      SameButWidth (c :: cs) (c :: ds)
  | spaces (m n : Nat) {cs ds : List Char} : SameButWidth cs ds →
      SameButWidth (List.replicate (m + 1) ' ' ++ cs) (List.replicate (n + 1) ' ' ++ ds)

namespace SameButWidth

variable {cs ds cs' ds' w : List Char}

theorem symm (h : SameButWidth cs ds) : SameButWidth ds cs := by
  induction h with
  | nil => exact .nil
  | letter noSpace _ ih => exact .letter noSpace ih
  | spaces m n _ ih => exact .spaces n m ih

theorem space (h : SameButWidth cs ds) : SameButWidth (' ' :: cs) (' ' :: ds) := .spaces 0 0 h

theorem append (h : SameButWidth cs ds) (h' : SameButWidth cs' ds') :
    SameButWidth (cs ++ cs') (ds ++ ds') := by
  induction h with
  | nil => exact h'
  | letter noSpace _ ih => exact .letter noSpace ih
  | spaces m n _ ih =>
    rw [List.append_assoc, List.append_assoc]
    exact .spaces m n ih

theorem reverse (h : SameButWidth cs ds) : SameButWidth cs.reverse ds.reverse := by
  induction h with
  | nil => exact .nil
  | letter noSpace _ ih =>
    rw [List.reverse_cons, List.reverse_cons]
    exact ih.append (.letter noSpace .nil)
  | spaces m n _ ih =>
    have run := SameButWidth.spaces m n .nil
    rw [List.append_nil, List.append_nil] at run
    rw [List.reverse_append, List.reverse_append, List.reverse_replicate, List.reverse_replicate]
    exact ih.append run

theorem eq_nil_iff (h : SameButWidth cs ds) : cs = [] ↔ ds = [] := by
  cases h <;> simp

/-- Letters in front of a text stay as they are. -/
theorem exists_letters (noSpace : ' ' ∉ w) (h : SameButWidth (w ++ cs) ds) :
    ∃ rest, ds = w ++ rest ∧ SameButWidth cs rest := by
  induction w generalizing ds with
  | nil => exact ⟨ds, rfl, h⟩
  | cons c w ih =>
    rw [List.mem_cons, not_or] at noSpace
    rw [List.cons_append] at h
    generalize whole : c :: (w ++ cs) = text at h
    cases h with
    | nil => cases whole
    | letter _ behind =>
      cases whole
      obtain ⟨rest, rfl, same⟩ := ih noSpace.2 behind
      exact ⟨rest, rfl, same⟩
    | spaces m n =>
      rw [List.replicate_succ, List.cons_append] at whole
      exact absurd (List.cons.inj whole).1.symm noSpace.1

/-- So do letters at the end. -/
theorem exists_letters_end (noSpace : ' ' ∉ w) (h : SameButWidth (cs ++ w) ds) :
    ∃ rest, ds = rest ++ w ∧ SameButWidth cs rest := by
  have turned := h.reverse
  rw [List.reverse_append] at turned
  obtain ⟨rest, split, same⟩ := exists_letters (by simpa using noSpace) turned
  refine ⟨rest.reverse, ?_, ?_⟩
  · have back := congrArg List.reverse split
    rwa [List.reverse_reverse, List.reverse_append, List.reverse_reverse] at back
  · simpa using same.reverse

/-- A text that starts with a space goes over into one that does. -/
theorem exists_space (h : SameButWidth (' ' :: cs) ds) : ∃ rest, ds = ' ' :: rest := by
  generalize whole : ' ' :: cs = text at h
  cases h with
  | nil => cases whole
  | letter noSpace => exact absurd (List.cons.inj whole).1.symm noSpace
  | spaces m n => exact ⟨_, by rw [List.replicate_succ, List.cons_append]⟩

/-- One more space in a run. -/
theorem widen (h : SameButWidth cs (' ' :: ds)) : SameButWidth (' ' :: cs) (' ' :: ds) := by
  generalize whole : ' ' :: ds = text at h
  cases h with
  | nil => cases whole
  | letter noSpace => exact absurd (List.cons.inj whole).1.symm noSpace
  | spaces m n same => exact .spaces (m + 1) n same

theorem mem_iff (h : SameButWidth cs ds) (c : Char) : c ∈ cs ↔ c ∈ ds := by
  induction h with
  | nil => rfl
  | letter _ _ ih => rw [List.mem_cons, List.mem_cons, ih]
  | spaces m n _ ih => simp [ih]

theorem eq_of_noSpace (h : SameButWidth cs ds) (noSpace : ' ' ∉ cs) : cs = ds := by
  rw [← List.append_nil cs] at h
  obtain ⟨rest, rfl, same⟩ := h.exists_letters noSpace
  rw [same.eq_nil_iff.mp rfl, List.append_nil]

/-- Whatever is computed alike for all texts with a space in them is the same for both texts. -/
theorem congr {α : Type} {f : List Char → α} {a : α} (spaced : ∀ text, ' ' ∈ text → f text = a)
    (h : SameButWidth cs ds) : f cs = f ds := by
  by_cases space : ' ' ∈ cs
  · rw [spaced cs space, spaced ds ((h.mem_iff ' ').mp space)]
  · rw [h.eq_of_noSpace space]

theorem trimStart (h : SameButWidth cs ds) : SameButWidth (trimStart cs) (trimStart ds) := by
  induction h with
  | nil => exact .nil
  | @letter c cs ds noSpace same ih =>
    by_cases blank : isBlank c = true
    · simpa [Text.trimStart, blank] using ih
    · simpa [Text.trimStart, blank] using SameButWidth.letter noSpace same
  | spaces m n _ ih => simpa [Text.trimStart, List.dropWhile_append, isBlank_space] using ih

theorem trim (h : SameButWidth cs ds) : SameButWidth (trim cs) (trim ds) :=
  h.trimStart.reverse.trimStart.reverse

/-- Words do not depend on how wide the spaces between them are. -/
theorem words_append (h : SameButWidth cs ds) (front : List Char) :
    words (front ++ cs) = words (front ++ ds) := by
  induction h generalizing front with
  | nil => rfl
  | @letter c _ _ _ _ ih =>
    have shifted := ih (front ++ [c])
    simpa only [List.append_assoc, List.singleton_append] using shifted
  | @spaces m n cs ds _ ih =>
    have apart (k : Nat) (text : List Char) :
        words (front ++ (List.replicate (k + 1) ' ' ++ text)) = words front ++ words text :=
      words_append_blanks (by simp) (by simp [isBlank_space]) front text
    rw [apart, apart]
    exact congrArg _ (ih [])

theorem squeeze (h : SameButWidth cs ds) : squeeze cs = squeeze ds :=
  congrArg layout (h.words_append [])

/-- A part without spaces is found in both texts or in none. -/
theorem contains {part : List Char} (nonempty : part ≠ []) (noSpace : ' ' ∉ part)
    (h : SameButWidth cs ds) : contains part cs = contains part ds := by
  have starts {cs ds} (h : SameButWidth cs ds) : part.isPrefixOf cs = part.isPrefixOf ds := by
    rw [Bool.eq_iff_iff, List.isPrefixOf_iff_prefix, List.isPrefixOf_iff_prefix]
    constructor
    · intro start
      obtain ⟨rest, split⟩ := start
      obtain ⟨behind, rfl, -⟩ := (split ▸ h).exists_letters noSpace
      exact List.prefix_append part behind
    · intro start
      obtain ⟨rest, split⟩ := start
      obtain ⟨behind, rfl, -⟩ := (split ▸ h.symm).exists_letters noSpace
      exact List.prefix_append part behind
  -- A part that begins with a letter does not begin inside a run of spaces.
  have skips (k : Nat) (text : List Char) :
      Text.contains part (List.replicate k ' ' ++ text) = Text.contains part text := by
    obtain ⟨c, rest, rfl⟩ := List.exists_cons_of_ne_nil nonempty
    have noStart : c ≠ ' ' := by
      intro space
      simp [space] at noSpace
    induction k with
    | zero => rfl
    | succ k ih =>
      rw [List.replicate_succ, List.cons_append, Text.contains, ih, List.isPrefixOf_cons_cons]
      simp [noStart]
  induction h with
  | nil => rfl
  | letter noSpace same ih => rw [Text.contains, Text.contains, starts (.letter noSpace same), ih]
  | spaces m n _ ih => rw [skips, skips, ih]

end SameButWidth

theorem words_trimStart (cs : List Char) : words (trimStart cs) = words cs := by
  induction cs with
  | nil => rfl
  | cons c cs ih =>
    by_cases blank : isBlank c = true
    · rw [words_cons_blank blank, ← ih, trimStart, trimStart, List.dropWhile_cons_of_pos blank]
    · rw [trimStart, List.dropWhile_cons_of_neg blank]

theorem words_trimEnd (cs : List Char) : words (trimEnd cs) = words cs := by
  obtain ⟨blanks, blank, split⟩ :
      ∃ blanks : List Char, (∀ c ∈ blanks, isBlank c = true) ∧ trimEnd cs ++ blanks = cs := by
    refine ⟨(cs.reverse.takeWhile isBlank).reverse, ?_, ?_⟩
    · intro c member
      exact List.mem_takeWhile_imp (List.mem_reverse.mp member)
    · rw [trimEnd, ← List.reverse_append, List.takeWhile_append_dropWhile, List.reverse_reverse]
  cases blanks with
  | nil =>
    rw [List.append_nil] at split
    rw [split]
  | cons c blanks =>
    have apart := words_append_blanks (List.cons_ne_nil c blanks) blank (trimEnd cs) []
    rw [List.append_nil, split, words_nil, List.append_nil] at apart
    exact apart.symm

/-- Blanks around a text do not show when it is squeezed. -/
theorem squeeze_trim (cs : List Char) : squeeze (trim cs) = squeeze cs := by
  rw [squeeze, trim, words_trimEnd, words_trimStart, squeeze]

theorem trimStart_eq_self {cs : List Char} (start : ∀ c ∈ cs.head?, isBlank c = false) :
    trimStart cs = cs := by
  cases cs with
  | nil => rfl
  | cons c cs => exact List.dropWhile_cons_of_neg (by simp [start c rfl])

theorem trimEnd_eq_self {cs : List Char} (stop : ∀ c ∈ cs.getLast?, isBlank c = false) :
    trimEnd cs = cs := by
  have turned : trimStart cs.reverse = cs.reverse := by
    apply trimStart_eq_self
    rwa [List.head?_reverse]
  rw [trimEnd, ← trimStart, turned, List.reverse_reverse]

theorem trim_prefix_trimStart (cs : List Char) : trim cs <+: trimStart cs := by
  have behind := List.dropWhile_suffix (l := (trimStart cs).reverse) isBlank
  rwa [← List.reverse_prefix, List.reverse_reverse] at behind

theorem isInfix_trim (cs : List Char) : trim cs <:+: cs :=
  (trim_prefix_trimStart cs).isInfix.trans (List.dropWhile_suffix isBlank).isInfix

theorem trim_cons_space (cs : List Char) : trim (' ' :: cs) = trim cs := rfl

theorem trim_trim (cs : List Char) : trim (trim cs) = trim cs := by
  have start : ∀ c ∈ (trim cs).head?, isBlank c = false := by
    intro c head
    obtain ⟨rest, split⟩ := List.head?_eq_some_iff.mp head
    obtain ⟨more, whole⟩ := split ▸ trim_prefix_trimStart cs
    exact head?_trimStart cs c (by rw [← whole]; rfl)
  have stop : ∀ c ∈ (trim cs).getLast?, isBlank c = false := getLast?_trimEnd (trimStart cs)
  rw [trim, trimStart_eq_self start, trimEnd_eq_self stop]

/-- A neat text is squeezed already. -/
theorem squeeze_neat {cs : List Char} (neat : IsNeat cs) : squeeze cs = cs := by
  rcases neat with rfl | uniform
  · exact congrArg layout words_nil
  · exact squeeze_uniform uniform

/-- Every run of spaces can be made one space. -/
theorem exists_singleSpaced {cs : List Char} (spaces : ∀ c ∈ cs, isBlank c = true → c = ' ') :
    ∃ thin, SameButWidth cs thin ∧ SingleSpaced thin := by
  induction cs with
  | nil => exact ⟨[], .nil, singleSpaced_letters (by simp)⟩
  | cons c cs ih =>
    rw [List.forall_mem_cons] at spaces
    obtain ⟨thin, same, single⟩ := ih spaces.2
    by_cases space : c = ' '
    · subst space
      by_cases wide : ∃ rest, thin = ' ' :: rest
      · obtain ⟨rest, rfl⟩ := wide
        exact ⟨_, same.widen, single⟩
      · refine ⟨' ' :: thin, same.space, ?_, ?_⟩
        · exact List.forall_mem_cons.mpr ⟨fun _ => rfl, single.spaces⟩
        · refine List.isChain_cons.mpr ⟨fun d next _ => ?_, single.apart⟩
          obtain ⟨rest, rfl⟩ := List.head?_eq_some_iff.mp next
          cases blank : isBlank d with
          | false => rfl
          | true =>
            rw [single.spaces d List.mem_cons_self blank] at wide
            exact absurd ⟨rest, rfl⟩ wide
    · refine ⟨c :: thin, same.letter space, ?_, ?_⟩
      · exact List.forall_mem_cons.mpr ⟨spaces.1, single.spaces⟩
      · refine List.isChain_cons.mpr ⟨fun d _ blank => ?_, single.apart⟩
        exact absurd (spaces.1 blank) space

/-- A text whose blanks are spaces, but for those around it, is squeezed by making its runs of
spaces narrow. -/
theorem sameButWidth_squeeze {cs : List Char}
    (spaces : ∀ c ∈ trim cs, isBlank c = true → c = ' ') : SameButWidth (trim cs) (squeeze cs) := by
  obtain ⟨thin, same, single⟩ := exists_singleSpaced spaces
  have neat := single.isNeat_trim
  have narrow : squeeze cs = trim thin := by
    rw [← squeeze_trim, same.squeeze, ← squeeze_trim thin, squeeze_neat neat]
  have trimmed := same.trim
  rw [trim_trim] at trimmed
  rw [narrow]
  exact trimmed

end ContractAbi.Text
