import ContractAbi.Proofs.Schema.Grammar

/-!
# The tail of a definition

`splitTail` stops at the first place where a tail `= Word;` can start: at the start of the text or
behind a space (`StartsTail`). `splitTail_eq_some_iff` says so in both directions, so that a text
can be taken apart and put together again by the same statement.
-/

namespace ContractAbi.Definition

open Text

variable {passed cs front rest w : List Char} {parts : List Char × List Char}

/-- A text that starts with a tail. -/
def OpensTail (cs : List Char) : Prop :=
  ∃ w back, IsWord w ∧ cs = '=' :: ' ' :: (w ++ ';' :: back)

/-- A tail starts here: `passed` holds the characters before, the last one first. -/
def StartsTail (passed cs : List Char) : Prop := (∀ c ∈ passed.head?, c = ' ') ∧ OpensTail cs

/-- A tail stands somewhere in the text. -/
def HasTail (cs : List Char) : Prop :=
  ∃ front back, cs = front ++ back ∧ StartsTail front.reverse back

/-- Behind the equals sign and the space stands a word with a semicolon, or there is no tail. -/
theorem opensTail_of_closed {behind : List Char}
    (closed : (behind.takeWhile isWordChar != [] &&
      (behind.dropWhile isWordChar).head? == some ';') = true) :
    OpensTail ('=' :: ' ' :: behind) := by
  simp only [Bool.and_eq_true, bne_iff_ne, beq_iff_eq, List.head?_eq_some_iff] at closed
  obtain ⟨nonempty, back, stops⟩ := closed
  refine ⟨_, back, ⟨nonempty, fun c member => List.mem_takeWhile_imp member⟩, ?_⟩
  rw [← stops, List.takeWhile_append_dropWhile]

/-- Where a tail starts, the text before it is split off. -/
theorem splitTail_of_startsTail (gap : ∀ c ∈ passed.head?, c = ' ') (word : IsWord w)
    (back : List Char) :
    splitTail passed ('=' :: ' ' :: (w ++ ';' :: back)) = some (trim passed.tail.reverse, w) := by
  rw [splitTail]
  cases passed with
  | nil => simp [takeWhile_word word, dropWhile_word word, word.1, trim, trimStart, trimEnd]
  | cons c passed =>
    rw [gap c rfl]
    simp [takeWhile_word word, dropWhile_word word, word.1]

/-- Elsewhere the search goes on. -/
theorem splitTail_of_not_startsTail {c : Char} (none : ¬ StartsTail passed (c :: cs)) :
    splitTail passed (c :: cs) = splitTail (c :: passed) cs := by
  by_cases equals : ∃ behind, c = '=' ∧ cs = ' ' :: behind
  · obtain ⟨behind, rfl, rfl⟩ := equals
    rw [splitTail]
    cases passed with
    | nil =>
      have notClosed := fun closed => none ⟨by simp, @opensTail_of_closed behind closed⟩
      simp only [if_neg notClosed]
    | cons d passed =>
      by_cases space : d = ' '
      · subst space
        have notClosed := fun closed =>
          none ⟨by simp, @opensTail_of_closed behind closed⟩
        simp only [if_neg notClosed]
      · simp [space]
  · rw [splitTail]
    intro behind same sameRest
    exact equals ⟨behind, same, sameRest⟩

/-- The tail that is found is the first one, and what stands before it is the text of the
parameters. -/
theorem splitTail_eq_some_iff : splitTail passed cs = some parts ↔
    ∃ front back, cs = front ++ '=' :: ' ' :: (parts.2 ++ ';' :: back) ∧ IsWord parts.2 ∧
      (∀ c ∈ (front.reverse ++ passed).head?, c = ' ') ∧
      parts.1 = trim (front.reverse ++ passed).tail.reverse ∧
      ∀ f g, front = f ++ g → g ≠ [] →
        ¬ StartsTail (f.reverse ++ passed) (g ++ '=' :: ' ' :: (parts.2 ++ ';' :: back)) := by
  -- By induction on the text, as the search goes: what it has passed is what stands before.
  induction cs generalizing passed with
  | nil => simp [splitTail]
  | cons c cs ih =>
    by_cases starts : StartsTail passed (c :: cs)
    · obtain ⟨gap, w, back, word, same⟩ := starts
      rw [same, splitTail_of_startsTail gap word, Option.some.injEq]
      constructor
      · rintro rfl
        refine ⟨[], back, rfl, word, gap, rfl, ?_⟩
        intro f g empty nonempty
        exact absurd (List.append_eq_nil_iff.mp empty.symm).2 nonempty
      · rintro ⟨front, back', split, word', -, before, first⟩
        cases front with
        | nil =>
          have found := splitTail_of_startsTail gap word back
          rw [split, List.nil_append, splitTail_of_startsTail gap word' back'] at found
          exact (Option.some.inj found).symm.trans (Prod.ext before.symm rfl)
        | cons d front =>
          -- A later tail is not the first one, as one starts here.
          refine absurd ?_ (first [] (d :: front) rfl (List.cons_ne_nil _ _))
          rw [← split]
          exact ⟨gap, w, back, word, rfl⟩
    · rw [splitTail_of_not_startsTail starts, ih]
      constructor
      · rintro ⟨front, back, rfl, word, gap, before, first⟩
        refine ⟨c :: front, back, rfl, word, by simpa using gap, by simpa using before, ?_⟩
        intro f g split nonempty
        cases f with
        | nil =>
          rw [List.nil_append] at split
          rw [← split]
          exact starts
        | cons d f =>
          rw [List.cons_append, List.cons.injEq] at split
          obtain ⟨rfl, split⟩ := split
          simpa using first f g split nonempty
      · rintro ⟨front, back, split, word, gap, before, first⟩
        cases front with
        | nil => exact absurd ⟨gap, _, back, word, split⟩ starts
        | cons d front =>
          rw [List.cons_append, List.cons.injEq] at split
          obtain ⟨rfl, split⟩ := split
          refine ⟨front, back, split, word, by simpa using gap, by simpa using before, ?_⟩
          intro f g split nonempty
          simpa using first (c :: f) g (congrArg (c :: ·) split) nonempty

theorem OpensTail.append (h : OpensTail cs) (rest : List Char) : OpensTail (cs ++ rest) := by
  obtain ⟨w, back, word, rfl⟩ := h
  exact ⟨w, back ++ rest, word, by simp⟩

theorem HasTail.append (h : HasTail cs) (rest : List Char) : HasTail (cs ++ rest) := by
  obtain ⟨front, back, rfl, gap, opens⟩ := h
  exact ⟨front, back ++ rest, List.append_assoc .., gap, opens.append rest⟩

/-- A tail does not reach beyond a space with an equals sign behind it. -/
theorem OpensTail.of_append (nonempty : front ≠ []) (h : OpensTail (front ++ ' ' :: '=' :: rest)) :
    OpensTail front := by
  obtain ⟨w, back, word, same⟩ := h
  obtain ⟨c, front, rfl⟩ := List.exists_cons_of_ne_nil nonempty
  rw [List.cons_append, List.cons.injEq] at same
  obtain ⟨rfl, same⟩ := same
  have notWord : ∀ d ∈ w, d ≠ '=' ∧ d ≠ ' ' := by
    intro d member
    have letter := word.2 d member
    constructor <;> rintro rfl <;> exact absurd letter (by decide)
  cases front with
  | nil =>
    obtain ⟨d, w, rfl⟩ := List.exists_cons_of_ne_nil word.1
    simp only [List.nil_append, List.cons_append, List.cons.injEq, true_and] at same
    exact absurd same.1.symm (notWord d List.mem_cons_self).1
  | cons d front =>
    rw [List.cons_append, List.cons.injEq] at same
    obtain ⟨rfl, same⟩ := same
    -- If the word went on behind the front, it would have the space in it.
    rcases List.append_eq_append_iff.mp same with ⟨more, inWord, behind⟩ | ⟨more, whole, behind⟩
    · cases more with
      | nil => simp at behind
      | cons e more =>
        rw [List.cons_append, List.cons.injEq] at behind
        have member : e ∈ w := by rw [inWord]; simp
        exact absurd behind.1.symm (notWord e member).2
    · cases more with
      | nil => simp at behind
      | cons e more =>
        rw [List.cons_append, List.cons.injEq] at behind
        obtain ⟨rfl, -⟩ := behind
        exact ⟨w, more, word, by rw [whole]⟩

theorem not_hasTail_nil : ¬ HasTail [] := by
  rintro ⟨front, back, empty, -, w, behind, -, rfl⟩
  simp at empty

/-- Behind parameters without a tail among them the tail is found. -/
theorem splitTail_of_not_hasTail (none : ¬ HasTail cs) (word : IsWord w) (behind : List Char) :
    splitTail [] (cs ++ ' ' :: '=' :: ' ' :: (w ++ ';' :: behind)) = some (trim cs, w) := by
  rw [splitTail_eq_some_iff]
  refine ⟨cs ++ [' '], behind, by simp, word, by simp, by simp, ?_⟩
  intro f g split nonempty starts
  obtain ⟨gap, opens⟩ := starts
  obtain ⟨inside, space, rfl⟩ : ∃ inside space, g = inside ++ [space] :=
    ⟨_, _, (List.dropLast_concat_getLast nonempty).symm⟩
  rw [← List.append_assoc] at split
  obtain ⟨within, last⟩ := List.append_inj' split rfl
  obtain rfl : ' ' = space := List.singleton_inj.mp last
  rw [List.append_assoc, List.singleton_append] at opens
  rcases eq_or_ne inside [] with rfl | some
  · obtain ⟨_, _, -, same⟩ := opens
    simp at same
  · rw [List.append_nil] at gap
    exact none ⟨f, inside, within, gap, opens.of_append some⟩

/-- Among the characters in front of the tail that is found there is no tail. -/
theorem not_hasTail_of_first {back : List Char}
    (first : ∀ f g, front = f ++ g → g ≠ [] → ¬ StartsTail (f.reverse ++ []) (g ++ back)) :
    ¬ HasTail front := by
  rintro ⟨f, g, split, gap, opens⟩
  have nonempty : g ≠ [] := by
    rintro rfl
    obtain ⟨w, back, -, same⟩ := opens
    cases same
  refine first f g split nonempty ⟨?_, opens.append back⟩
  rwa [List.append_nil]

end ContractAbi.Definition
