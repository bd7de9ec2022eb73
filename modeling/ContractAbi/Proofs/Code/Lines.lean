import Mathlib.Data.List.Basic
import ContractAbi.Proofs.Code.Skeleton
import ContractAbi.Code.Line

/-!
# Cutting a text into its lines

Lines that are written one after another are found again where no carriage return is in them
(`linesOf_ofLines`), and a text without one that ends with its last line is found again in its lines
(`ofLines_linesOf`). With a carriage return neither is so, for it is lost before a line end.
-/

namespace ContractAbi.Code

/-- No carriage return is in the text. -/
def NoReturn (text : String) : Prop := ∀ c ∈ text.toList, c ≠ '\r'

theorem NoReturn.ofList {cs : List Char} (others : cs.all (· != '\r') = true) :
    NoReturn (String.ofList cs) := by
  simpa [NoReturn] using others

@[simp] theorem noReturn_append {a b : String} :
    NoReturn (a ++ b) ↔ NoReturn a ∧ NoReturn b := by
  simp only [NoReturn, String.toList_append, List.forall_mem_append]

/-- The text can be a line: no line ends in it, and no carriage return could be lost. -/
def IsSingle (text : String) : Prop := OneLine text ∧ NoReturn text

theorem IsSingle.ofList {cs : List Char}
    (others : cs.all (fun c => c != '\n' && c != '\r') = true) : IsSingle (String.ofList cs) := by
  simpa [IsSingle, OneLine, NoReturn, forall_and] using others

theorem IsSingle.append {a b : String} (first : IsSingle a) (second : IsSingle b) :
    IsSingle (a ++ b) :=
  ⟨oneLine_append.mpr ⟨first.1, second.1⟩, noReturn_append.mpr ⟨first.2, second.2⟩⟩

/-- The text of lines. -/
def ofLines (lines : List String) : String := String.join (lines.map (· ++ "\n"))

variable {line cs : List Char} {lines : List String}

theorem ofLines_cons (first : String) (lines : List String) :
    ofLines (first :: lines) = first ++ "\n" ++ ofLines lines := by
  rw [ofLines, List.map_cons, String.join_cons, ofLines]

theorem toList_ofLines_cons (first : String) (lines : List String) :
    (ofLines (first :: lines)).toList = first.toList ++ '\n' :: (ofLines lines).toList := by
  simp [ofLines_cons]

theorem render_eq_ofLines (ls : List Line) : render ls = ofLines (layout 0 ls) := rfl

/-! ### From lines to a text and back -/

/-- A line ends with the line end, unless a carriage return is before it. -/
theorem splitLines_lineEnd_of_noReturn (noReturn : ∀ c ∈ line, c ≠ '\r') :
    splitLines line ('\n' :: cs) = line.reverse :: splitLines [] cs := by
  rw [splitLines]
  rintro before rfl
  exact noReturn '\r' List.mem_cons_self rfl

/-- The first line of a text ends at its first line end. -/
theorem splitLines_append {start : List Char} (oneLine : ∀ c ∈ line, c ≠ '\n')
    (noReturn : ∀ c ∈ start ++ line, c ≠ '\r') :
    splitLines start (line ++ '\n' :: cs) = (start.reverse ++ line) :: splitLines [] cs := by
  induction line generalizing start with
  | nil =>
    rw [List.append_nil] at noReturn
    simpa using splitLines_lineEnd_of_noReturn noReturn
  | cons c line ih =>
    obtain ⟨other, others⟩ := List.forall_mem_cons.mp oneLine
    rw [List.cons_append, splitLines, ih others]
    · simp
    · intro x among
      exact noReturn x (by simpa [or_left_comm] using among)
    · exact other

/-- Lines are found again in their text. -/
theorem linesOf_ofLines (single : ∀ l ∈ lines, IsSingle l) :
    linesOf (ofLines lines) = lines := by
  unfold linesOf
  induction lines with
  | nil => rfl
  | cons first lines ih =>
    obtain ⟨⟨oneLine, noReturn⟩, others⟩ := List.forall_mem_cons.mp single
    rw [toList_ofLines_cons, splitLines_append oneLine fun c among => noReturn c among,
      List.map_cons, ih others]
    simp

/-- Lines, each with its line end, are the text again. -/
theorem flatMap_splitLines (noReturn : ∀ c ∈ line ++ cs, c ≠ '\r') :
    (splitLines line (cs ++ ['\n'])).flatMap (· ++ ['\n']) = line.reverse ++ cs ++ ['\n'] := by
  induction cs generalizing line with
  | nil =>
    rw [List.append_nil] at noReturn
    simp [splitLines_lineEnd_of_noReturn noReturn, splitLines]
  | cons c cs ih =>
    have first : ∀ c ∈ line, c ≠ '\r' := fun c among => noReturn c (List.mem_append_left _ among)
    rw [List.cons_append]
    by_cases lineEnd : c = '\n'
    · rw [lineEnd, splitLines_lineEnd_of_noReturn first, List.flatMap_cons, ih]
      · simp
      · intro c among
        exact noReturn c (List.mem_append_right _ (List.mem_cons_of_mem _ among))
    · rw [splitLines, ih]
      · simp
      · intro x among
        exact noReturn x (by simpa [or_left_comm] using among)
      · exact lineEnd

/-- A text is found again in its lines if it has no carriage return and is what some lines, however
cut, are written as. -/
theorem ofLines_linesOf (noReturn : NoReturn (ofLines lines)) :
    ofLines (linesOf (ofLines lines)) = ofLines lines := by
  rcases List.eq_nil_or_concat' lines with rfl | ⟨before, last, rfl⟩
  · rfl
  · have ends : (ofLines (before ++ [last])).toList =
        (ofLines before ++ last).toList ++ ['\n'] := by
      simp [ofLines, String.toList_join]
    rw [NoReturn, ends] at noReturn
    rw [← String.toList_inj, ends, linesOf, ends, ofLines, String.toList_join, List.map_map,
      List.flatMap_map]
    have whole := @flatMap_splitLines [] (ofLines before ++ last).toList
      fun c among => noReturn c (List.mem_append_left _ among)
    simpa [Function.comp_def] using whole

/-! ### What is in a line -/

/-- What holds of all characters of a text but line ends holds of all characters of its lines. -/
theorem forall_mem_splitLines {p : Char → Prop} (inside : ∀ c ∈ line, p c)
    (others : ∀ c ∈ cs, c ≠ '\n' → p c) : ∀ l ∈ splitLines line cs, ∀ c ∈ l, p c := by
  fun_induction splitLines line cs with
  | case1 => exact List.forall_mem_nil _
  | case2 line => simpa using inside
  | case3 cs before ih =>
    have first : ∀ c ∈ before.reverse, p c := by
      intro c among
      exact inside c (List.mem_cons_of_mem _ (List.mem_reverse.mp among))
    exact List.forall_mem_cons.mpr ⟨first, ih (List.forall_mem_nil _)
      fun c among => others c (List.mem_cons_of_mem _ among)⟩
  | case4 line cs _ ih =>
    have first : ∀ c ∈ line.reverse, p c := fun c among => inside c (List.mem_reverse.mp among)
    exact List.forall_mem_cons.mpr ⟨first, ih (List.forall_mem_nil _)
      fun c among => others c (List.mem_cons_of_mem _ among)⟩
  | case5 line c cs other ih =>
    obtain ⟨first, others⟩ := List.forall_mem_cons.mp others
    exact ih (List.forall_mem_cons.mpr ⟨first other, inside⟩) others

/-- The lines of a text without carriage returns can be lines. -/
theorem isSingle_linesOf {text : String} (noReturn : NoReturn text) :
    ∀ l ∈ linesOf text, IsSingle l := by
  intro l listed
  obtain ⟨cs, cut, rfl⟩ := List.mem_map.mp listed
  have single := forall_mem_splitLines (p := fun c => c ≠ '\n' ∧ c ≠ '\r') (List.forall_mem_nil _)
    (fun c among other => ⟨other, noReturn c among⟩) cs cut
  rw [IsSingle, OneLine, NoReturn, String.toList_ofList]
  exact ⟨fun c among => (single c among).1, fun c among => (single c among).2⟩

end ContractAbi.Code
