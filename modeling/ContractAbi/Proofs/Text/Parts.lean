import Mathlib.Data.List.Chain
import ContractAbi.Proofs.Text.Spacing

/-!
# Parts of a uniform text

A part of a uniform text need not be uniform, for it may start or end with a space, but its blanks
are still single spaces (`SingleSpaced`). Trimming it takes off at most one space at either end
(`SingleSpaced.exists_gaps`), and leaves a uniform text or nothing.
-/

namespace ContractAbi.Text

variable {cs ds : List Char}

/-- Every blank is a space with no blank behind it. -/
structure SingleSpaced (cs : List Char) : Prop where
  spaces : ∀ c ∈ cs, isBlank c = true → c = ' '
  apart : cs.IsChain fun c d => isBlank c = true → isBlank d = false

/-- At most one space. -/
def IsGap (gap : List Char) : Prop := gap = [] ∨ gap = [' ']

theorem SingleSpaced.part (h : SingleSpaced cs) (part : ds <:+: cs) : SingleSpaced ds where
  spaces c member := h.spaces c (part.subset member)
  apart := List.IsChain.infix h.apart part

theorem SingleSpaced.reverse (h : SingleSpaced cs) : SingleSpaced cs.reverse where
  spaces c member := h.spaces c (List.mem_reverse.mp member)
  apart := by
    refine List.isChain_reverse.mpr (h.apart.imp ?_)
    intro c d apart blankD
    by_contra blankC
    have letterD := apart (by simpa using blankC)
    rw [letterD] at blankD
    cases blankD

theorem singleSpaced_letters (letters : ∀ c ∈ cs, isBlank c = false) : SingleSpaced cs where
  spaces c member blank := by
    rw [letters c member] at blank
    cases blank
  apart := by
    induction cs with
    | nil => exact .nil
    | cons c cs ih =>
      refine List.isChain_cons.mpr ⟨fun d next _ => ?_, ih fun d member => ?_⟩
      · exact letters d (List.mem_cons_of_mem _ (List.mem_of_mem_head? next))
      · exact letters d (List.mem_cons_of_mem _ member)

theorem words_letters : ∀ w ∈ words cs, w ≠ [] ∧ ∀ c ∈ w, isBlank c = false := by
  fun_induction words cs with
  | case1 => simp
  | case2 c cs blank ih => exact ih
  | case3 c cs letter ih =>
    refine List.forall_mem_cons.mpr ⟨⟨List.cons_ne_nil _ _, ?_⟩, ih⟩
    refine List.forall_mem_cons.mpr ⟨by simpa using letter, fun d member => ?_⟩
    simpa using List.mem_takeWhile_imp member

/-- A text of which anything is left is uniform when its white space is squeezed. -/
theorem isUniform_squeeze (nonempty : squeeze cs ≠ []) : IsUniform (squeeze cs) := by
  refine IsUniform.layout ?_ fun w member => ?_
  · intro none
    rw [squeeze, none] at nonempty
    exact nonempty rfl
  · obtain ⟨some, letters⟩ := words_letters w member
    exact .word some letters

namespace IsUniform

/-- Without a space between them the last word of one text and the first of the other become one. -/
theorem concat (h : IsUniform cs) (h' : IsUniform ds) : IsUniform (cs ++ ds) := by
  induction h with
  | word _ letters => exact h'.letters_append letters
  | next nonempty letters _ ih =>
    rw [List.append_assoc, List.cons_append]
    exact .next nonempty letters ih

theorem singleSpaced (h : IsUniform cs) : SingleSpaced cs := by
  induction h with
  | word _ letters => exact singleSpaced_letters letters
  | @next w cs _ letters rest ih =>
    have front := singleSpaced_letters letters
    obtain ⟨c, behind, start, letter⟩ := rest.head
    constructor
    · intro d member blank
      rcases List.mem_append.mp member with inWord | behind
      · exact front.spaces d inWord blank
      · rcases List.mem_cons.mp behind with rfl | inRest
        · rfl
        · exact ih.spaces d inRest blank
    · refine List.isChain_append.mpr ⟨front.apart, ?_, ?_⟩
      · refine List.isChain_cons.mpr ⟨fun d next _ => ?_, ih.apart⟩
        rw [start] at next
        cases next
        exact letter
      · intro d last _ _ blank
        rw [letters d (List.mem_of_mem_getLast? last)] at blank
        cases blank

end IsUniform

namespace SingleSpaced

/-- A part that starts and ends with a letter is uniform. -/
theorem isUniform (h : SingleSpaced cs) (start : ∃ c ∈ cs.head?, isBlank c = false)
    (stop : ∀ c ∈ cs.getLast?, isBlank c = false) : IsUniform cs := by
  refine isUniform_of_single_spaces start ?_
  intro front c back split blank
  subst split
  refine ⟨h.spaces c (by simp) blank, ?_⟩
  cases back with
  | nil =>
    have letter := stop c (by simp)
    rw [letter] at blank
    cases blank
  | cons d back =>
    have behind := (h.part (List.suffix_append front _).isInfix).apart
    exact ⟨d, rfl, (List.isChain_cons_cons.mp behind).1 blank⟩

theorem exists_gap_start (h : SingleSpaced cs) : ∃ gap, IsGap gap ∧ cs = gap ++ trimStart cs := by
  cases cs with
  | nil => exact ⟨[], .inl rfl, rfl⟩
  | cons c cs =>
    by_cases blank : isBlank c = true
    · refine ⟨[' '], .inr rfl, ?_⟩
      have space := h.spaces c List.mem_cons_self blank
      have stays : cs.dropWhile isBlank = cs := by
        cases cs with
        | nil => rfl
        | cons d cs =>
          have letter := (List.isChain_cons_cons.mp h.apart).1 blank
          exact List.dropWhile_cons_of_neg (by simp [letter])
      rw [trimStart, List.dropWhile_cons_of_pos blank, stays, space]
      rfl
    · refine ⟨[], .inl rfl, ?_⟩
      rw [trimStart, List.dropWhile_cons_of_neg blank]
      rfl

theorem exists_gap_end (h : SingleSpaced cs) : ∃ gap, IsGap gap ∧ cs = trimEnd cs ++ gap := by
  obtain ⟨gap, isGap, split⟩ := h.reverse.exists_gap_start
  refine ⟨gap, isGap, ?_⟩
  have same : gap.reverse = gap := by rcases isGap with rfl | rfl <;> rfl
  have turned := congrArg List.reverse split
  rwa [List.reverse_reverse, List.reverse_append, same] at turned

/-- Trimming takes off at most one space at either end. -/
theorem exists_gaps (h : SingleSpaced cs) :
    ∃ before after, IsGap before ∧ IsGap after ∧ cs = before ++ (trim cs ++ after) := by
  obtain ⟨before, isBefore, split⟩ := h.exists_gap_start
  have rest : SingleSpaced (trimStart cs) := h.part (List.dropWhile_suffix isBlank).isInfix
  obtain ⟨after, isAfter, split'⟩ := rest.exists_gap_end
  refine ⟨before, after, isBefore, isAfter, ?_⟩
  rw [trim, ← split', ← split]

end SingleSpaced

/-! ### What trimming leaves -/

/-- A uniform text, or nothing. -/
def IsNeat (cs : List Char) : Prop := cs = [] ∨ IsUniform cs

theorem IsNeat.trim_eq (h : IsNeat cs) : trim cs = cs := by
  rcases h with rfl | uniform
  · rfl
  · exact uniform.trim_eq

theorem IsNeat.isUniform_colon (h : IsNeat cs) (h' : IsNeat ds) : IsUniform (cs ++ ':' :: ds) := by
  have letters : ∀ c ∈ [':'], isBlank c = false := List.forall_mem_singleton.mpr rfl
  have behind : IsUniform (':' :: ds) := by
    rcases h' with rfl | uniform
    · exact .word (List.cons_ne_nil _ _) letters
    · exact uniform.letters_append letters
  rcases h with rfl | uniform
  · exact behind
  · exact uniform.concat behind

theorem head?_trimStart (cs : List Char) : ∀ c ∈ (trimStart cs).head?, isBlank c = false := by
  intro c head
  have stops := List.head?_dropWhile_not isBlank cs
  rw [trimStart] at head
  rw [head] at stops
  exact stops

theorem getLast?_trimEnd (cs : List Char) : ∀ c ∈ (trimEnd cs).getLast?, isBlank c = false := by
  intro c last
  rw [trimEnd, List.getLast?_reverse] at last
  exact head?_trimStart cs.reverse c last

/-- A trimmed part of a text with single spaces is neat. -/
theorem SingleSpaced.isNeat_trim (h : SingleSpaced cs) : IsNeat (trim cs) := by
  rcases eq_or_ne (trim cs) [] with empty | nonempty
  · exact .inl empty
  · obtain ⟨before, after, -, -, split⟩ := h.exists_gaps
    have part : trim cs <:+: cs := ⟨before, after, by rw [List.append_assoc, ← split]⟩
    have rest : SingleSpaced (trimStart cs) := h.part (List.dropWhile_suffix isBlank).isInfix
    obtain ⟨gap, -, split'⟩ := rest.exists_gap_end
    obtain ⟨c, behind, start⟩ := List.exists_cons_of_ne_nil nonempty
    refine .inr ((h.part part).isUniform ⟨c, by rw [start]; rfl, ?_⟩ (getLast?_trimEnd _))
    apply head?_trimStart cs
    rw [split']
    change c ∈ (trim cs ++ gap).head?
    rw [start]
    rfl

namespace IsUniform

/-- Behind the front part of a uniform text is a space at most, and before it none. -/
theorem exists_gap_front (h : IsUniform (cs ++ ds)) : ∃ gap, IsGap gap ∧ cs = trim cs ++ gap := by
  obtain ⟨before, after, isBefore, isAfter, split⟩ :=
    (h.singleSpaced.part (List.prefix_append cs ds).isInfix).exists_gaps
  rcases isBefore with rfl | rfl
  · exact ⟨after, isAfter, split⟩
  · obtain ⟨c, rest, start, letter⟩ := h.head
    rw [split, List.singleton_append, List.cons_append, List.cons.injEq] at start
    rw [← start.1, isBlank_space] at letter
    cases letter

/-- Before the back part is a space at most, and behind it none. -/
theorem exists_gap_back (h : IsUniform (cs ++ ds)) : ∃ gap, IsGap gap ∧ ds = gap ++ trim ds := by
  obtain ⟨before, after, isBefore, isAfter, split⟩ :=
    (h.singleSpaced.part (List.suffix_append cs ds).isInfix).exists_gaps
  rcases isAfter with rfl | rfl
  · exact ⟨before, isBefore, by rw [← List.append_nil (trim ds), ← split]⟩
  · obtain ⟨rest, c, stop, letter⟩ := h.last
    rw [split, ← List.append_assoc, ← List.append_assoc] at stop
    obtain ⟨-, space⟩ := List.append_inj' stop rfl
    rw [← List.singleton_inj.mp space, isBlank_space] at letter
    cases letter

/-- What stands behind a space of a uniform text is uniform. -/
theorem behind_space (h : IsUniform (cs ++ ' ' :: ds)) : IsUniform ds := by
  have behind := h.singleSpaced.part (List.suffix_append cs (' ' :: ds)).isInfix
  obtain ⟨rest, c, stop, letter⟩ := h.last
  cases ds with
  | nil =>
    obtain ⟨-, space⟩ := List.append_inj' stop rfl
    rw [← List.singleton_inj.mp space, isBlank_space] at letter
    cases letter
  | cons d ds =>
    have apart := (List.isChain_cons_cons.mp behind.apart).1 isBlank_space
    refine (behind.part (List.suffix_cons _ _).isInfix).isUniform ⟨d, rfl, apart⟩ ?_
    intro e last
    have whole : (cs ++ ' ' :: d :: ds).getLast? = some e := by
      rw [List.getLast?_append_cons, List.getLast?_cons_cons]
      exact last
    rw [stop, List.getLast?_concat, Option.some.injEq] at whole
    rwa [← whole]

/-- What stands before a space of a uniform text is uniform. -/
theorem before_space (h : IsUniform (cs ++ ' ' :: ds)) : IsUniform cs := by
  have apart := (List.isChain_append.mp h.singleSpaced.apart).2.2
  refine (h.singleSpaced.part (List.prefix_append cs _).isInfix).isUniform ?_ ?_
  · obtain ⟨c, rest, start, letter⟩ := h.head
    cases cs with
    | nil =>
      rw [List.nil_append, List.cons.injEq] at start
      rw [← start.1, isBlank_space] at letter
      cases letter
    | cons d cs =>
      rw [List.cons_append, List.cons.injEq] at start
      exact ⟨d, rfl, start.1 ▸ letter⟩
  · intro c last
    by_contra blank
    have letter := apart c last ' ' rfl (by simpa using blank)
    rw [isBlank_space] at letter
    cases letter

end IsUniform

end ContractAbi.Text
