/-!
# Paths

Paths are texts that are put together and taken apart, but never simplified: what is read, written
and reported is the path as it was given. The names of a path stand between slashes. A name that is
empty, or is `.` anywhere but at the start, says nothing.
-/

namespace ContractAbi.Path

/-- Whether a path starts at the root. -/
def isAbsolute (path : String) : Bool := path.toList.head? == some '/'

/-- The path `path` as seen from the directory `base`. -/
def join (base path : String) : String :=
  if isAbsolute path then path
  else
    match base.toList.getLast? with
    | none => path
    | some '/' => base ++ path
    | some _ => base ++ "/" ++ path

/-- The pieces of a text between slashes; there is at least one. -/
def pieces : List Char → List (List Char)
  | [] => [[]]
  | c :: cs =>
    if c = '/' then [] :: pieces cs
    else
      match pieces cs with
      | [] => [[c]]
      | p :: ps => (c :: p) :: ps

/-- Pieces with slashes between them. -/
def unpieces (ps : List (List Char)) : List Char := ['/'].intercalate ps

/-- Whether a piece says nothing. -/
def isIdle (piece : List Char) : Bool := piece = [] || piece = ['.']

/-- The pieces without the idle ones that they end with. -/
def dropIdle (ps : List (List Char)) : List (List Char) := (ps.reverse.dropWhile isIdle).reverse

/-- The start of a path that belongs to none of its names, and the rest: the slash of an absolute
path, or the `.` that a relative one starts with. -/
def splitStart : List Char → List Char × List Char
  | '/' :: cs => (['/'], cs)
  | '.' :: cs => if cs.head?.all (· == '/') then (['.'], cs) else ([], '.' :: cs)
  | cs => ([], cs)

theorem length_dropIdle_le (ps : List (List Char)) : (dropIdle ps).length ≤ ps.length := by
  simp only [dropIdle, List.length_reverse]
  exact Nat.le_trans (List.dropWhile_sublist _).length_le (by simp)

/-- The paths above the one with these pieces, the nearest first. The empty path stands above the
relative ones that start with `.`, and for all others the last one is their start. -/
def above (start : List Char) (ps : List (List Char)) : List String :=
  match _h : dropIdle ps with
  | [] => if start = ['.'] then [""] else []
  | q :: qs =>
    let rest := (q :: qs).dropLast
    String.ofList (start ++ unpieces (dropIdle rest)) :: above start rest
termination_by ps.length
decreasing_by
  have := length_dropIdle_le ps
  rw [_h] at this
  simp only [List.length_dropLast, List.length_cons] at *
  omega

/-- The paths above a path, the nearest first. -/
def ancestors (path : String) : List String :=
  let (start, rest) := splitStart path.toList
  above start (pieces rest)

/-- The path without its last name. There is none for the root and for the empty path. -/
def parent? (path : String) : Option String := (ancestors path).head?

/-- The names that lead to a path. -/
def names (path : String) : List String :=
  ((pieces path.toList).filter (· ≠ [])).map String.ofList

/-- Whether a path ends in a slash. -/
def endsInSlash (path : String) : Bool := path.toList.getLast? == some '/'

end ContractAbi.Path
