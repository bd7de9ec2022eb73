import ContractAbi.Files.Path

/-!
# Names behind a directory

A name without a slash, joined to the path of a directory, is one more name behind those that lead
to the directory, wherever that path starts and however it ends.
-/

namespace ContractAbi.Path

/-- A piece of a path that says something. -/
structure IsPiece (name : String) : Prop where
  single : '/' ∉ name.toList
  nonempty : name.toList ≠ []

theorem pieces_ne_nil (cs : List Char) : pieces cs ≠ [] := by
  unfold pieces
  split
  · simp
  · split
    · simp
    · split <;> simp

theorem pieces_append_slash (cs ds : List Char) :
    pieces (cs ++ '/' :: ds) = pieces cs ++ pieces ds := by
  induction cs with
  | nil => rfl
  | cons c cs ih =>
    rw [List.cons_append, pieces, pieces]
    by_cases slash : c = '/'
    · rw [if_pos slash, if_pos slash, ih, List.cons_append]
    · rw [if_neg slash, if_neg slash, ih]
      cases behind : pieces cs with
      | nil => exact absurd behind (pieces_ne_nil cs)
      | cons p ps => rfl

theorem pieces_of_single {cs : List Char} (single : '/' ∉ cs) : pieces cs = [cs] := by
  induction cs with
  | nil => rfl
  | cons c cs ih =>
    simp only [List.mem_cons, not_or] at single
    rw [pieces, if_neg (Ne.symm single.1), ih single.2]

variable {directory name : String}

theorem isAbsolute_of_isPiece (piece : IsPiece name) : isAbsolute name = false := by
  rw [isAbsolute]
  cases text : name.toList with
  | nil => rfl
  | cons c cs =>
    have other : c ≠ '/' := by
      rintro rfl
      exact piece.single (by simp [text])
    simp [other]

/-- A join is the path of the directory, made to end in a slash unless it is empty, and the name. -/
theorem toList_join (directory : String) (piece : IsPiece name) :
    (directory.toList = [] ∧ (join directory name).toList = name.toList) ∨
      ∃ start, (directory.toList = start ++ ['/'] ∨ directory.toList = start ∧ start ≠ []) ∧
        (join directory name).toList = start ++ '/' :: name.toList := by
  rw [join, isAbsolute_of_isPiece piece]
  cases last : directory.toList.getLast? with
  | none =>
    left
    exact ⟨List.getLast?_eq_none_iff.mp last, rfl⟩
  | some c =>
    right
    obtain ⟨start, text⟩ := List.getLast?_eq_some_iff.mp last
    by_cases slash : c = '/'
    · subst slash
      exact ⟨start, .inl text, by simp [text]⟩
    · refine ⟨directory.toList, .inr ⟨rfl, by simp [text]⟩, ?_⟩
      simp

theorem isAbsolute_join (piece : IsPiece name) :
    isAbsolute (join directory name) = isAbsolute directory := by
  rcases toList_join directory piece with ⟨empty, text⟩ | ⟨start, shape, text⟩
  · have relative := isAbsolute_of_isPiece piece
    rw [isAbsolute] at relative
    rw [isAbsolute, isAbsolute, text, relative, empty]
    rfl
  · rw [isAbsolute, isAbsolute, text]
    rcases shape with same | ⟨same, nonempty⟩
    · rw [same]
      cases start <;> rfl
    · rw [same]
      cases start with
      | nil => exact absurd rfl nonempty
      | cons => rfl

/-- Joining a name adds it to the names of the path. -/
theorem names_join (piece : IsPiece name) :
    names (join directory name) = names directory ++ [name] := by
  have last : (pieces name.toList).filter (· ≠ []) = [name.toList] := by
    rw [pieces_of_single piece.single]
    simp [piece.nonempty]
  rcases toList_join directory piece with ⟨empty, text⟩ | ⟨start, shape, text⟩
  · rw [names, names, text, last, empty]
    simp [pieces]
  · rw [names, names, text, pieces_append_slash, List.filter_append, last]
    rcases shape with same | ⟨same, -⟩
    · rw [same, pieces_append_slash]
      simp [pieces]
    · rw [same]
      simp

theorem endsInSlash_join (piece : IsPiece name) : endsInSlash (join directory name) = false := by
  have own : name.toList.getLast? ≠ some '/' := by
    intro slash
    exact piece.single (List.mem_of_getLast? slash)
  rcases toList_join directory piece with ⟨-, text⟩ | ⟨start, -, text⟩
  · rw [endsInSlash, text]
    simpa using own
  · rw [endsInSlash, text]
    cases behind : name.toList with
    | nil => exact absurd behind piece.nonempty
    | cons c cs =>
      rw [behind] at own
      simpa [List.getLast?_append, List.getLast?_cons_cons] using own

end ContractAbi.Path
