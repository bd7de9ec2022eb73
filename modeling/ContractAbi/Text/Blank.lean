/-!
# Blank characters

White space as Unicode defines it, and what the library does with it: trimming a text, cutting it
into words, and laying it out anew with single spaces. The lemmas say that trimming never makes a
text longer.
-/

namespace ContractAbi.Text

/-- A character with the Unicode property `White_Space`. -/
def isBlank (c : Char) : Bool :=
  let n := c.toNat
  (9 ≤ n && n ≤ 13) || n == 0x20 || n == 0x85 || n == 0xA0 || n == 0x1680 ||
    (0x2000 ≤ n && n ≤ 0x200A) || n == 0x2028 || n == 0x2029 || n == 0x202F || n == 0x205F ||
    n == 0x3000

theorem isBlank_space : isBlank ' ' = true := by decide

/-- The text without the blanks it starts with. -/
def trimStart (cs : List Char) : List Char := cs.dropWhile isBlank

/-- The text without the blanks it ends with. -/
def trimEnd (cs : List Char) : List Char := (cs.reverse.dropWhile isBlank).reverse

/-- The text without the blanks around it. -/
def trim (cs : List Char) : List Char := trimEnd (trimStart cs)

theorem length_trimStart_le (cs : List Char) : (trimStart cs).length ≤ cs.length :=
  (List.dropWhile_sublist isBlank).length_le

theorem length_trimEnd_le (cs : List Char) : (trimEnd cs).length ≤ cs.length := by
  have := (List.dropWhile_sublist (l := cs.reverse) isBlank).length_le
  simpa [trimEnd] using this

theorem length_trim_le (cs : List Char) : (trim cs).length ≤ cs.length :=
  Nat.le_trans (length_trimEnd_le _) (length_trimStart_le cs)

/-- The maximal runs of characters that are not blank, in order. -/
def words (cs : List Char) : List (List Char) :=
  match cs with
  | [] => []
  | c :: cs =>
    if isBlank c then words cs
    else (c :: cs.takeWhile (!isBlank ·)) :: words (cs.dropWhile (!isBlank ·))
termination_by cs.length
decreasing_by
  · simp
  · have := (List.dropWhile_sublist (l := cs) (!isBlank ·)).length_le
    simp only [List.length_cons]
    omega

/-- Words with one space between neighbours. -/
def layout (ws : List (List Char)) : List Char := [' '].intercalate ws

/-- The text with every run of blanks made one space and none around it. -/
def squeeze (cs : List Char) : List Char := layout (words cs)

/-- `squeeze` on strings. -/
def normalize (text : String) : String := String.ofList (squeeze text.toList)

/-- Nothing but blanks. -/
def isAllBlank (text : String) : Bool := text.toList.all isBlank

/-- `trim` on strings. -/
def trimmed (text : String) : String := String.ofList (trim text.toList)

end ContractAbi.Text
