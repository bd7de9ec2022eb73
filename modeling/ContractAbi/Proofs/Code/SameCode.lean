import Mathlib.Data.List.Forall2
import ContractAbi.Code.Header
import ContractAbi.Proofs.Code.Skeleton

/-!
# The same code up to comments and literals

Two texts are the same code if they have the same skeleton and leave the scan in code
(`SameCode`). Putting texts one behind the other preserves this, whatever is quoted in them
(`SameText`). Lines are compared in the same way, where a line may also be a comment as long as no
line ends in it (`SameLine`). Then the texts that are written for them are the same code
(`SameLines.render`), each with as many lines as there are lines of code.
-/

namespace ContractAbi.Code

open Text.Quoted (quote)

/-- The texts differ in comments and literals alone, and what follows them stands in code. -/
structure SameCode (a b : String) : Prop where
  skeleton : skeleton .code a.toList = skeleton .code b.toList
  left : Place.code.after a.toList = .code
  right : Place.code.after b.toList = .code

/-- The same for texts that are parts of a line. -/
structure SameText (a b : String) : Prop extends SameCode a b where
  oneLine : OneLine a
  oneLine' : OneLine b

variable {a b c d : String}

namespace SameCode

theorem of_isPlain (plain : IsPlain a) : SameCode a a := ⟨rfl, plain.after, plain.after⟩

theorem append (first : SameCode a b) (second : SameCode c d) : SameCode (a ++ c) (b ++ d) := by
  constructor
  · rw [String.toList_append, String.toList_append, skeleton_append, skeleton_append,
      first.left, first.right, first.skeleton, second.skeleton]
  · rw [String.toList_append, after_append, first.left, second.left]
  · rw [String.toList_append, after_append, first.right, second.right]

theorem lineEnd : SameCode "\n" "\n" := ⟨rfl, rfl, rfl⟩

/-- Characters in code are kept, so that there are none on one side only. -/
theorem eq_empty_iff (same : SameCode a b) : a = "" ↔ b = "" := by
  have empty (text : String) : text = "" ↔ Code.skeleton .code text.toList = [] := by
    rw [← String.toList_eq_nil_iff]
    cases text.toList with
    | nil => exact iff_of_true rfl rfl
    | cons c cs => exact iff_of_false (List.cons_ne_nil c cs) (List.cons_ne_nil c _)
  rw [empty a, empty b, same.skeleton]

/-- The end of its line ends a comment. -/
theorem comment (left : IsComment a) (right : IsComment b) : SameCode (a ++ "\n") (b ++ "\n") := by
  have scan {t : String} (comment : IsComment t) :
      Place.code.after (t ++ "\n").toList = .code ∧
        Code.skeleton .code (t ++ "\n").toList = ['/', '/', '\n'] := by
    obtain ⟨place, mark⟩ := comment.scan
    rw [String.toList_append, after_append, skeleton_append, place, mark]
    exact ⟨rfl, rfl⟩
  exact ⟨(scan left).2.trans (scan right).2.symm, (scan left).1, (scan right).1⟩

end SameCode

namespace SameText

theorem of_isPlain (plain : IsPlain a) : SameText a a :=
  ⟨.of_isPlain plain, plain.oneLine, plain.oneLine⟩

theorem quote (a b : String) : SameText (quote a) (quote b) :=
  ⟨⟨by rw [skeleton_quote, skeleton_quote], after_quote a, after_quote b⟩, oneLine_quote a,
    oneLine_quote b⟩

theorem append (first : SameText a b) (second : SameText c d) : SameText (a ++ c) (b ++ d) :=
  ⟨first.toSameCode.append second.toSameCode,
    oneLine_append.mpr ⟨first.oneLine, second.oneLine⟩,
    oneLine_append.mpr ⟨first.oneLine', second.oneLine'⟩⟩

/-- Plain code around texts. -/
theorem around (front : IsPlain c) (back : IsPlain d) (same : SameText a b) :
    SameText (c ++ a ++ d) (c ++ b ++ d) :=
  ((of_isPlain front).append same).append (of_isPlain back)

theorem intercalate (separator : IsPlain c) {xs ys : List String}
    (same : List.Forall₂ SameText xs ys) : SameText (c.intercalate xs) (c.intercalate ys) := by
  induction same with
  | nil => exact of_isPlain (.ofList rfl)
  | @cons x y xs ys first others ih =>
    cases others with
    | nil => simpa [String.intercalate_singleton] using first
    | cons second others =>
      rw [String.intercalate_cons_cons, String.intercalate_cons_cons]
      exact (first.append (of_isPlain separator)).append ih

end SameText

/-! ### Lines -/

/-- The lines say the same up to literals, or both are comments. -/
inductive SameLine : Line → Line → Prop where
  | same {l : Line} (plain : IsPlain l.content) : SameLine l l
  | text {a b : String} (same : SameText a b) : SameLine (.text a) (.text b)
  | comment {a b : String} (left : IsComment a) (right : IsComment b) :
      SameLine (.text a) (.text b)

theorem isPlain_blanks (n : Nat) : IsPlain (String.ofList (List.replicate n ' ')) := by
  refine .ofList (List.all_eq_true.mpr ?_)
  intro c among
  rw [List.eq_of_mem_replicate among]
  rfl

/-- Blanks before a text are code, the same on both sides. -/
theorem SameCode.indented (same : SameCode a b) (depth : Nat) :
    SameCode (indented depth a) (indented depth b) := by
  unfold Code.indented
  by_cases empty : a = ""
  · rw [if_pos empty, if_pos (same.eq_empty_iff.mp empty)]
    exact ⟨rfl, rfl, rfl⟩
  · rw [if_neg empty, if_neg (mt same.eq_empty_iff.mpr empty)]
    exact (SameCode.of_isPlain (isPlain_blanks _)).append same

namespace SameLine

variable {l m : Line}

/-- What is written for the lines at the same depth is the same code, and the depth behind them is
the same. -/
theorem written (same : SameLine l m) (depth : Nat) :
    SameCode (indented (l.depthAt depth) l.content ++ "\n")
        (indented (m.depthAt depth) m.content ++ "\n") ∧
      l.depthAfter depth = m.depthAfter depth := by
  cases same with
  | same plain => exact ⟨((SameCode.of_isPlain plain).indented _).append .lineEnd, rfl⟩
  | text same => exact ⟨(same.toSameCode.indented depth).append .lineEnd, rfl⟩
  | @comment a b left right =>
    have shift {t : String} (comment : IsComment t) : indented depth t ++ "\n" =
        String.ofList (List.replicate (4 * depth) ' ') ++ (t ++ "\n") := by
      rw [indented, if_neg comment.ne_empty, String.append_assoc]
    refine ⟨?_, rfl⟩
    show SameCode (indented depth a ++ "\n") (indented depth b ++ "\n")
    rw [shift left, shift right]
    exact (SameCode.of_isPlain (isPlain_blanks _)).append (.comment left right)

theorem blank : SameLine blank blank := .same (.ofList rfl)

theorem oneLine (same : SameLine l m) : OneLine l.content ∧ OneLine m.content := by
  cases same with
  | same plain => exact ⟨plain.oneLine, plain.oneLine⟩
  | text same => exact ⟨same.oneLine, same.oneLine'⟩
  | comment left right => exact ⟨left.oneLine, right.oneLine⟩

end SameLine

/-- Lines that are compared one by one. -/
abbrev SameLines : List Line → List Line → Prop := List.Forall₂ SameLine

namespace SameLines

variable {ls ms ls' ms' : List Line}

/-- Lines that are the same one by one are the same text of code. -/
theorem layout (same : SameLines ls ms) (depth : Nat) :
    SameCode (String.join ((layout depth ls).map (· ++ "\n")))
      (String.join ((layout depth ms).map (· ++ "\n"))) := by
  induction same generalizing depth with
  | nil => exact ⟨rfl, rfl, rfl⟩
  | cons first others ih =>
    obtain ⟨line, inside⟩ := first.written depth
    rw [Code.layout, Code.layout, List.map_cons, List.map_cons, String.join_cons, String.join_cons,
      inside]
    exact line.append (ih _)

/-- Written as a file, they have the same skeleton. -/
theorem render (same : SameLines ls ms) :
    skeleton .code (render ls).toList = skeleton .code (render ms).toList :=
  (same.layout 0).skeleton

theorem oneLine (same : SameLines ls ms) :
    (∀ l ∈ ls, OneLine l.content) ∧ ∀ m ∈ ms, OneLine m.content := by
  induction same with
  | nil => exact ⟨List.forall_mem_nil _, List.forall_mem_nil _⟩
  | cons first others ih =>
    exact ⟨List.forall_mem_cons.mpr ⟨first.oneLine.1, ih.1⟩,
      List.forall_mem_cons.mpr ⟨first.oneLine.2, ih.2⟩⟩

theorem append (first : SameLines ls ms) (second : SameLines ls' ms') :
    SameLines (ls ++ ls') (ms ++ ms') := List.rel_append first second

theorem texts {xs ys : List String} (same : List.Forall₂ SameText xs ys) :
    SameLines (texts xs) (texts ys) :=
  List.rel_map (fun _ _ alike => SameLine.text alike) same

theorem texts_of_isPlain {xs : List String} (plain : ∀ x ∈ xs, IsPlain x) :
    SameLines (Code.texts xs) (Code.texts xs) :=
  texts (List.forall₂_same.mpr fun x among => .of_isPlain (plain x among))

theorem block {header suffix : String} (plain : IsPlain header) (plainSuffix : IsPlain suffix)
    (inside : SameLines ls ms) : SameLines (block header ls suffix) (block header ms suffix) := by
  have opening : IsPlain (Line.opening header).content := plain.append (.ofList (by decide))
  have closing : IsPlain (Line.closing suffix).content := .append (.ofList (by decide)) plainSuffix
  exact .cons (.same opening) (inside.append (.cons (.same closing) .nil))

theorem spaced {items items' : List (List Line)} (same : List.Forall₂ SameLines items items') :
    SameLines (spaced items) (spaced items') :=
  List.rel_flatMap same fun _ _ item => .cons .blank item

end SameLines

/-! ### The number of lines -/

theorem splitLines_lineEnd (line cs : List Char) :
    ∃ first, splitLines line ('\n' :: cs) = first :: splitLines [] cs := by
  by_cases carriage : ∃ before, line = '\r' :: before
  · obtain ⟨before, rfl⟩ := carriage
    exact ⟨before.reverse, rfl⟩
  · refine ⟨line.reverse, ?_⟩
    rw [splitLines]
    intro before begins
    exact carriage ⟨before, begins⟩

theorem length_splitLines (line cs : List Char) :
    (splitLines line (cs ++ ['\n'])).length = (cs ++ ['\n']).count '\n' := by
  induction cs generalizing line with
  | nil =>
    obtain ⟨first, cut⟩ := splitLines_lineEnd line []
    rw [List.nil_append, cut]
    rfl
  | cons c cs ih =>
    rw [List.cons_append]
    by_cases lineEnd : c = '\n'
    · obtain ⟨first, cut⟩ := splitLines_lineEnd line (cs ++ ['\n'])
      rw [lineEnd, cut, List.count_cons_self, ← ih [], List.length_cons]
    · rw [splitLines, List.count_cons_of_ne lineEnd, ih]
      exact lineEnd

/-- What is written for lines ends at the end of a line, so that it has a line for each line end. -/
theorem length_linesOf_render (ls : List Line) :
    (linesOf (render ls)).length = (render ls).toList.count '\n' := by
  unfold linesOf render
  rw [List.length_map]
  rcases List.eq_nil_or_concat' (layout 0 ls) with none | ⟨before, last, written⟩
  · rw [none]
    rfl
  · have ends : (String.join ((before ++ [last]).map (· ++ "\n"))).toList =
        (String.join (before.map (· ++ "\n")) ++ last).toList ++ ['\n'] := by
      simp [String.toList_join]
    rw [written, ends]
    exact length_splitLines [] _

theorem count_indented (depth : Nat) (content : String) :
    (indented depth content).toList.count '\n' = content.toList.count '\n' := by
  unfold indented
  by_cases empty : content = ""
  · rw [if_pos empty, empty]
  · rw [if_neg empty, String.toList_append, List.count_append, String.toList_ofList,
      List.count_replicate]
    simp

/-- The line ends of laid out code: one for each line, and those inside lines. -/
theorem count_layout (depth : Nat) (ls : List Line) :
    (String.join ((layout depth ls).map (· ++ "\n"))).toList.count '\n' =
      ls.length + (ls.map fun l => l.content.toList.count '\n').sum := by
  induction ls generalizing depth with
  | nil => rfl
  | cons l ls ih =>
    have lineEnd : "\n".toList.count '\n' = 1 := rfl
    rw [layout, List.map_cons, String.join_cons, String.toList_append, List.count_append,
      String.toList_append, List.count_append, count_indented, ih, lineEnd, List.map_cons,
      List.sum_cons, List.length_cons]
    omega

/-- What is written has a line for each line of code, and one more for each line end inside them. -/
theorem length_linesOf_render_eq (ls : List Line) : (linesOf (render ls)).length =
    ls.length + (ls.map fun l => l.content.toList.count '\n').sum := by
  rw [length_linesOf_render]
  exact count_layout 0 ls

/-- Where no line ends inside a line of code, there are as many lines as there are lines of code. -/
theorem length_linesOf_of_oneLine {ls : List Line} (oneLine : ∀ l ∈ ls, OneLine l.content) :
    (linesOf (render ls)).length = ls.length := by
  rw [length_linesOf_render_eq, Nat.add_eq_left, List.sum_eq_zero_iff_forall_eq_nat]
  intro n counted
  obtain ⟨l, listed, rfl⟩ := List.mem_map.mp counted
  refine List.count_eq_zero.mpr ?_
  intro lineEnd
  exact oneLine l listed _ lineEnd rfl

end ContractAbi.Code
