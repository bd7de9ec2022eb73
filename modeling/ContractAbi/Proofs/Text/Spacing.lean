import Mathlib.Data.List.TakeWhile
import ContractAbi.Text.Blank

/-!
# The width of white space

`words` cuts a text at every blank (`words_append_blank`), so that it does not matter how wide the
white space between words is, nor what stands around them (`words_eq_of_respaced`). A text in which
every blank is a space between two words is uniform: `squeeze` gives it back (`squeeze_uniform`).
-/

namespace ContractAbi.Text

/-- Texts that differ in the width of their white space: each space of the first one is a run of
blanks in the second one, which may also end with blanks. -/
inductive Spread : List Char → List Char → Prop
  | done {blanks : List Char} : (∀ c ∈ blanks, isBlank c) → Spread [] blanks
  | char (c : Char) {cs text : List Char} : c ≠ ' ' → Spread cs text → Spread (c :: cs) (c :: text)
  | space {blanks cs text : List Char} : blanks ≠ [] → (∀ c ∈ blanks, isBlank c) →
      Spread cs text → Spread (' ' :: cs) (blanks ++ text)

theorem Spread.letters {w cs text : List Char} (letters : ∀ c ∈ w, c ≠ ' ')
    (rest : Spread cs text) : Spread (w ++ cs) (w ++ text) := by
  induction w with
  | nil => exact rest
  | cons c w ih =>
    exact .char c (letters c List.mem_cons_self)
      (ih fun d member => letters d (List.mem_cons_of_mem _ member))

/-- The second text is the first one with each space made a run of blanks, and with any blanks
around it. -/
def Respaced (cs text : List Char) : Prop :=
  ∃ blanks spread, (∀ c ∈ blanks, isBlank c) ∧ Spread cs spread ∧ text = blanks ++ spread

section Stop

variable {α : Type} {p : α → Bool} {stop : α}

theorem takeWhile_append_stop (front back : List α) (stops : p stop = false) :
    (front ++ stop :: back).takeWhile p = front.takeWhile p := by
  induction front with
  | nil => simp [stops]
  | cons x front ih =>
    rw [List.cons_append, List.takeWhile_cons, List.takeWhile_cons, ih]

theorem dropWhile_append_stop (front back : List α) (stops : p stop = false) :
    (front ++ stop :: back).dropWhile p = front.dropWhile p ++ stop :: back := by
  induction front with
  | nil => simp [stops]
  | cons x front ih =>
    rw [List.cons_append, List.dropWhile_cons, List.dropWhile_cons, ih]
    by_cases holds : p x = true
    · rw [if_pos holds, if_pos holds]
    · rw [if_neg holds, if_neg holds, List.cons_append]

/-- A run of a class in front of something outside the class is taken off whole. -/
theorem takeWhile_run {run : List α} (inside : ∀ x ∈ run, p x = true) (back : List α)
    (stops : p stop = false) : (run ++ stop :: back).takeWhile p = run := by
  rw [takeWhile_append_stop run back stops]
  exact List.takeWhile_eq_self_iff.mpr inside

theorem dropWhile_run {run : List α} (inside : ∀ x ∈ run, p x = true) (back : List α)
    (stops : p stop = false) : (run ++ stop :: back).dropWhile p = stop :: back := by
  rw [dropWhile_append_stop run back stops, List.dropWhile_eq_nil_iff.mpr inside, List.nil_append]

end Stop

theorem words_nil : words [] = [] := by rw [words.eq_def]

theorem words_cons (c : Char) (cs : List Char) :
    words (c :: cs) = if isBlank c then words cs
      else (c :: cs.takeWhile (!isBlank ·)) :: words (cs.dropWhile (!isBlank ·)) := by
  rw [words.eq_def]

theorem words_cons_blank {c : Char} (blank : isBlank c = true) (cs : List Char) :
    words (c :: cs) = words cs := by
  rw [words_cons, if_pos blank]

/-- A blank parts words. -/
theorem words_append_blank {c : Char} (blank : isBlank c = true) (front back : List Char) :
    words (front ++ c :: back) = words front ++ words back := by
  have stops : (!isBlank c) = false := by rw [blank]; rfl
  fun_induction words front with
  | case1 => exact words_cons_blank blank back
  | case2 d front blankD ih =>
    rw [List.cons_append, words_cons_blank blankD, ih]
  | case3 d front letter ih =>
    rw [List.cons_append, words_cons, if_neg letter, takeWhile_append_stop front back stops,
      dropWhile_append_stop front back stops, ih, List.cons_append]

theorem words_blanks {blanks : List Char} (blank : ∀ c ∈ blanks, isBlank c = true) :
    words blanks = [] := by
  induction blanks with
  | nil => exact words_nil
  | cons c blanks ih =>
    rw [words_cons_blank (blank c List.mem_cons_self)]
    exact ih fun d member => blank d (List.mem_cons_of_mem _ member)

/-- A run of blanks parts words, whatever its width. -/
theorem words_append_blanks {blanks : List Char} (nonempty : blanks ≠ [])
    (blank : ∀ c ∈ blanks, isBlank c = true) (front back : List Char) :
    words (front ++ (blanks ++ back)) = words front ++ words back := by
  induction blanks generalizing front with
  | nil => exact absurd rfl nonempty
  | cons c blanks ih =>
    rw [List.cons_append, words_append_blank (blank c List.mem_cons_self)]
    cases blanks with
    | nil => rfl
    | cons d blanks =>
      have rest := ih (List.cons_ne_nil _ _)
        (fun e member => blank e (List.mem_cons_of_mem _ member)) []
      rw [List.nil_append] at rest
      rw [rest, words_nil, List.nil_append]

theorem words_spread {cs text : List Char} (spread : Spread cs text) (front : List Char) :
    words (front ++ text) = words (front ++ cs) := by
  -- Words are cut at blanks alone, so that letters wait in `front` until a blank comes.
  induction spread generalizing front with
  | @done blanks blank =>
    cases blanks with
    | nil => rfl
    | cons c blanks =>
      rw [words_append_blank (blank c List.mem_cons_self), List.append_nil,
        words_blanks fun d member => blank d (List.mem_cons_of_mem _ member), List.append_nil]
  | char c _ _ ih =>
    have shifted := ih (front ++ [c])
    simpa only [List.append_assoc, List.singleton_append] using shifted
  | space nonempty blank _ ih =>
    rw [words_append_blanks nonempty blank, words_append_blank isBlank_space]
    exact congrArg _ (ih [])

theorem words_eq_of_respaced {cs text : List Char} (respaced : Respaced cs text) :
    words text = words cs := by
  obtain ⟨blanks, spread, blank, wide, rfl⟩ := respaced
  have body : words spread = words cs := words_spread wide []
  cases blanks with
  | nil => exact body
  | cons c blanks =>
    have apart := words_append_blanks (List.cons_ne_nil c blanks) blank [] spread
    rw [words_nil, List.nil_append, List.nil_append] at apart
    exact apart.trans body

/-- Words with single spaces between them. -/
inductive IsUniform : List Char → Prop
  | word {w : List Char} : w ≠ [] → (∀ c ∈ w, isBlank c = false) → IsUniform w
  | next {w cs : List Char} : w ≠ [] → (∀ c ∈ w, isBlank c = false) → IsUniform cs →
      IsUniform (w ++ ' ' :: cs)

theorem words_word {w : List Char} (nonempty : w ≠ []) (letters : ∀ c ∈ w, isBlank c = false) :
    words w = [w] := by
  cases w with
  | nil => exact absurd rfl nonempty
  | cons c w =>
    have inside : ∀ d ∈ w, (!isBlank d) = true := by
      intro d member
      rw [letters d (List.mem_cons_of_mem _ member)]
      rfl
    have letter : ¬ isBlank c = true := by
      rw [letters c List.mem_cons_self]
      exact Bool.false_ne_true
    rw [words_cons, if_neg letter, List.takeWhile_eq_self_iff.mpr inside,
      List.dropWhile_eq_nil_iff.mpr inside, words_nil]

theorem layout_singleton (w : List Char) : layout [w] = w := by simp [layout, List.intercalate]

theorem layout_cons_cons (w v : List Char) (ws : List (List Char)) :
    layout (w :: v :: ws) = w ++ ' ' :: layout (v :: ws) := by
  simp [layout, List.intercalate]

theorem layout_cons (w : List Char) {ws : List (List Char)} (nonempty : ws ≠ []) :
    layout (w :: ws) = w ++ ' ' :: layout ws := by
  cases ws with
  | nil => exact absurd rfl nonempty
  | cons v ws => exact layout_cons_cons w v ws

namespace IsUniform

variable {cs ds : List Char}

theorem words_ne_nil (h : IsUniform cs) : words cs ≠ [] := by
  cases h with
  | word nonempty letters =>
    rw [words_word nonempty letters]
    exact List.cons_ne_nil _ _
  | next nonempty letters _ =>
    rw [words_append_blank isBlank_space, words_word nonempty letters]
    exact List.cons_ne_nil _ _

/-- A word in front of a uniform text lengthens its first word. -/
theorem letters_append (h : IsUniform cs) {w : List Char} (letters : ∀ c ∈ w, isBlank c = false) :
    IsUniform (w ++ cs) := by
  cases h with
  | word nonempty lettersV =>
    exact .word (List.append_ne_nil_of_right_ne_nil w nonempty)
      (List.forall_mem_append.mpr ⟨letters, lettersV⟩)
  | next nonempty lettersV rest =>
    rw [← List.append_assoc]
    exact .next (List.append_ne_nil_of_right_ne_nil w nonempty)
      (List.forall_mem_append.mpr ⟨letters, lettersV⟩) rest

theorem append (h : IsUniform cs) (h' : IsUniform ds) : IsUniform (cs ++ ' ' :: ds) := by
  induction h with
  | word nonempty letters => exact .next nonempty letters h'
  | next nonempty letters _ ih =>
    rw [List.append_assoc, List.cons_append]
    exact .next nonempty letters ih

/-- Pieces with single spaces make a text with single spaces. -/
theorem layout {pieces : List (List Char)} (nonempty : pieces ≠ [])
    (uniform : ∀ piece ∈ pieces, IsUniform piece) : IsUniform (layout pieces) := by
  induction pieces with
  | nil => exact absurd rfl nonempty
  | cons piece pieces ih =>
    have first := uniform piece List.mem_cons_self
    cases pieces with
    | nil =>
      rw [layout_singleton]
      exact first
    | cons next pieces =>
      rw [layout_cons_cons]
      exact first.append
        (ih (List.cons_ne_nil _ _) fun p member => uniform p (List.mem_cons_of_mem _ member))

/-- The first character of a uniform text is no blank. -/
theorem head (h : IsUniform cs) : ∃ c rest, cs = c :: rest ∧ isBlank c = false := by
  cases h with
  | @word w nonempty letters =>
    obtain ⟨c, w, rfl⟩ := List.exists_cons_of_ne_nil nonempty
    exact ⟨c, w, rfl, letters c List.mem_cons_self⟩
  | @next w rest nonempty letters _ =>
    obtain ⟨c, w, rfl⟩ := List.exists_cons_of_ne_nil nonempty
    exact ⟨c, w ++ ' ' :: rest, rfl, letters c List.mem_cons_self⟩

/-- Nor is the last one. -/
theorem last (h : IsUniform cs) : ∃ rest c, cs = rest ++ [c] ∧ isBlank c = false := by
  induction h with
  | @word w nonempty letters =>
    refine ⟨w.dropLast, w.getLast nonempty, (List.dropLast_concat_getLast nonempty).symm, ?_⟩
    exact letters _ (List.getLast_mem nonempty)
  | @next w _ _ _ _ ih =>
    obtain ⟨rest, c, rfl, letter⟩ := ih
    exact ⟨w ++ ' ' :: rest, c, by rw [List.append_assoc, List.cons_append], letter⟩

theorem trim_eq (h : IsUniform cs) : trim cs = cs := by
  obtain ⟨first, behind, start, letter⟩ := h.head
  obtain ⟨front, final, stop, letter'⟩ := h.last
  have keepsStart : trimStart cs = cs := by
    rw [trimStart, start, List.dropWhile_cons_of_neg (by simp [letter])]
  have keepsEnd : trimEnd cs = cs := by
    rw [trimEnd, stop, List.reverse_append, List.reverse_singleton, List.singleton_append,
      List.dropWhile_cons_of_neg (by simp [letter']), List.reverse_cons, List.reverse_reverse]
  rw [trim, keepsStart, keepsEnd]

end IsUniform

theorem trimmed_eq_of_letters {text : String} (letters : ∀ c ∈ text.toList, isBlank c = false) :
    trimmed text = text := by
  have same : trim text.toList = text.toList := by
    rcases List.eq_nil_or_concat text.toList with empty | ⟨_, _, nonempty⟩
    · rw [empty]
      rfl
    · exact (IsUniform.word (by simp [nonempty]) letters).trim_eq
  rw [trimmed, same, String.ofList_toList]

theorem squeeze_uniform {cs : List Char} (uniform : IsUniform cs) : squeeze cs = cs := by
  induction uniform with
  | word nonempty letters =>
    rw [squeeze, words_word nonempty letters, layout_singleton]
  | @next w cs nonempty letters rest ih =>
    rw [squeeze, words_append_blank isBlank_space, words_word nonempty letters,
      List.singleton_append, layout_cons w rest.words_ne_nil]
    exact congrArg (w ++ ' ' :: ·) ih

/-- Where every blank is a space with a letter on either side, the text is uniform. -/
theorem isUniform_of_single_spaces {cs : List Char} (start : ∃ c ∈ cs.head?, isBlank c = false)
    (spaces : ∀ front c back, cs = front ++ c :: back → isBlank c = true →
      c = ' ' ∧ ∃ d ∈ back.head?, isBlank d = false) : IsUniform cs := by
  -- By induction on the length: one word and its space are taken off.
  generalize size : cs.length = n
  induction n using Nat.strongRecOn generalizing cs with
  | ind n ih =>
    obtain ⟨first, isFirst, letter⟩ := start
    obtain ⟨cs, rfl⟩ : ∃ rest, cs = first :: rest := by
      cases cs with
      | nil => cases isFirst
      | cons c cs =>
        cases isFirst
        exact ⟨cs, rfl⟩
    have split := List.takeWhile_append_dropWhile (p := (!isBlank ·)) (l := first :: cs)
    have taken : (first :: cs).takeWhile (!isBlank ·) ≠ [] := by
      simp [letter]
    have letters : ∀ c ∈ (first :: cs).takeWhile (!isBlank ·), isBlank c = false := by
      intro c member
      simpa using List.mem_takeWhile_imp member
    generalize (first :: cs).takeWhile (!isBlank ·) = w at split taken letters
    cases behind : (first :: cs).dropWhile (!isBlank ·) with
    | nil =>
      rw [behind, List.append_nil] at split
      exact split ▸ .word taken letters
    | cons c back =>
      rw [behind] at split
      have blank : isBlank c = true := by
        have stopped := List.head?_dropWhile_not (!isBlank ·) (first :: cs)
        rw [behind] at stopped
        simpa using stopped
      obtain ⟨rfl, follows⟩ := spaces w c back split.symm blank
      rw [← split]
      refine .next taken letters (ih back.length ?_ follows ?_ rfl)
      · rw [← size, ← split, List.length_append, List.length_cons]
        omega
      · intro front d rest eq blankD
        refine spaces (w ++ ' ' :: front) d rest ?_ blankD
        rw [← split, eq, List.append_assoc, List.cons_append]

end ContractAbi.Text
