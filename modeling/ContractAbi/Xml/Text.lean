import ContractAbi.Text.Ascii
import ContractAbi.Text.Decimal
import ContractAbi.Xml.Name

/-!
# Character data in XML

How the characters between tags and inside attribute values are read: references are replaced and
line ends are made uniform. A character reference is always taken as it is, so that it can bring in
a character that would be changed if it were written out.
-/

namespace ContractAbi.Xml

/-- The entities that need no declaration. -/
def entity? (name : List Char) : Option Char :=
  match String.ofList name with
  | "quot" => some '"'
  | "amp" => some '&'
  | "apos" => some '\''
  | "lt" => some '<'
  | "gt" => some '>'
  | _ => none

/-- The character with this number. What is no character number stands for the replacement
character. -/
def charOf (n : Nat) : Char := if n.isValidChar then Char.ofNat n else Char.ofNat 0xFFFD

/-- The character of a numeric reference, if the document may contain it. -/
def numbered? (digits : List Char) (n : Nat) : Option Char :=
  if digits.isEmpty || 0x100000000 ≤ n || !isAllowed (charOf n) then none else some (charOf n)

/-- The character that a reference stands for, and the text behind it. The ampersand is already
read. -/
def readReference (cs : List Char) : Option (Char × List Char) :=
  let close (c : Option Char) (rest : List Char) : Option (Char × List Char) :=
    match rest with
    | ';' :: rest => c.map (·, rest)
    | _ => none
  match cs with
  | '#' :: 'x' :: rest =>
    let digits := rest.takeWhile Text.isHexDigit
    close (numbered? digits (Text.hexNumber digits)) (rest.dropWhile Text.isHexDigit)
  | '#' :: rest =>
    let digits := rest.takeWhile Char.isDigit
    close (numbered? digits (Text.Decimal.value digits)) (rest.dropWhile Char.isDigit)
  | cs =>
    match readPlainName cs with
    | some (name, rest) => close (entity? name) rest
    | none => none

theorem length_readReference_lt {cs rest : List Char} {c : Char}
    (h : readReference cs = some (c, rest)) : rest.length < cs.length := by
  have shrink (p : Char → Bool) (xs : List Char) : (xs.dropWhile p).length ≤ xs.length :=
    (List.dropWhile_sublist p).length_le
  -- Whatever stands before the semicolon, what is behind it is shorter.
  have closed : ∀ {o : Option Char} {ys : List Char},
      (match ys with
        | ';' :: rest => o.map (·, rest)
        | _ => none) = some (c, rest) → rest.length < ys.length := by
    intro o ys hy
    split at hy
    · cases o <;> simp_all
    · contradiction
  unfold readReference at h
  split at h
  · next ys =>
    have := closed h
    have := shrink Text.isHexDigit ys
    simp only [List.length_cons]
    omega
  · next ys _ =>
    have := closed h
    have := shrink Char.isDigit ys
    simp only [List.length_cons]
    omega
  · split at h
    · next hn =>
      have := closed h
      simp only [readPlainName, Option.ite_none_right_eq_some, Option.some.injEq,
        Prod.mk.injEq] at hn
      obtain ⟨_, _, rfl⟩ := hn
      have := shrink isNameChar cs
      omega
    · contradiction

/-- Adds a character of running text to what was read so far, last character first. A carriage
return, alone or before a line feed, counts as a line feed; it is replaced when the next character
comes, or at once if it is the last. -/
def addChar (out : List Char) (c : Char) (last : Bool) : List Char :=
  match out with
  | '\r' :: before =>
    if last && c == '\r' then '\n' :: '\n' :: before
    else if c == '\n' then '\n' :: before
    else c :: '\n' :: before
  | out => if last && c == '\r' then '\n' :: out else c :: out

/-- The characters of running text. `verbatim` says that the character before was a reference: then
this one is taken as it is, too. -/
def expandText (out : List Char) (verbatim : Bool) (cs : List Char) : Option (List Char) :=
  match cs with
  | [] => some out.reverse
  | '&' :: rest =>
    match _h : readReference rest with
    | some (c, rest) => expandText (c :: out) true rest
    | none => none
  | c :: rest =>
    if verbatim then expandText (c :: out) false rest
    else expandText (addChar out c rest.isEmpty) false rest
termination_by cs.length
decreasing_by
  · have := length_readReference_lt _h
    simp only [List.length_cons]
    omega
  · simp only [List.length_cons]
    omega
  · simp only [List.length_cons]
    omega

/-- The characters of a section without references. -/
def expandSection (out : List Char) : List Char → List Char
  | [] => out.reverse
  | c :: rest => expandSection (addChar out c rest.isEmpty) rest

/-- The value of an attribute: white space becomes spaces, one for a carriage return and a line
feed together, unless a reference stands for it. -/
def expandValue (out : List Char) (cs : List Char) : Option (List Char) :=
  match cs with
  | [] => some out.reverse
  | '&' :: rest =>
    match _h : readReference rest with
    | some (c, rest) => expandValue (c :: out) rest
    | none => none
  | '\r' :: '\n' :: rest => expandValue (' ' :: out) rest
  | c :: rest => expandValue ((if isSpace c then ' ' else c) :: out) rest
termination_by cs.length
decreasing_by
  · have := length_readReference_lt _h
    simp only [List.length_cons]
    omega
  · simp only [List.length_cons]
    omega
  · simp only [List.length_cons]
    omega

end ContractAbi.Xml
