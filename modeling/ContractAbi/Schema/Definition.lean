import ContractAbi.Schema.Opcode
import ContractAbi.Text.Blank

/-!
# Message definitions

The grammar of message bodies. A definition is written

```text
name#hex param:type param:type ... = ReturnType;
```

and a type may hold spaces inside parentheses. `Definition.parse` reads a definition out of a text
whose white space is first made uniform; `Definition.render` writes one with single spaces.
-/

namespace ContractAbi

open Text

/-- A named value of a get-method or a message, with its type as written. The parameters of
get-methods also carry the tag they were declared with. -/
structure Parameter where
  category : Option String
  name : String
  rawType : String
  deriving DecidableEq

/-- What a message body holds: the constructor name, the opcode, the fields in order, and the name
of the type that the constructor belongs to. -/
structure Definition where
  name : String
  opcode : Opcode
  params : List Parameter
  returnType : String
  deriving DecidableEq

namespace Definition

/-- Why a text is no message definition. -/
inductive Fault where
  | noHash
  | noName
  | noOpcode
  | opcode (fault : Opcode.Fault)
  | noSpace
  | noTail
  deriving DecidableEq

/-- What is reported for a fault. -/
def Fault.message : Fault → String
  | .noHash => "missing '#' between name and opcode"
  | .noName => "missing constructor name before '#'"
  | .noOpcode => "missing hexadecimal opcode after '#'"
  | .opcode fault => fault.message
  | .noSpace => "expected whitespace after opcode"
  | .noTail => "missing '= ReturnType;' tail"

/-- A parameter without a declared tag. -/
def param (name rawType : List Char) : Parameter :=
  ⟨none, String.ofList name, String.ofList rawType⟩

/-- Cuts a type off the text behind its colon. A space outside all parentheses ends the type, but
only if another colon follows it; otherwise the type takes the whole text. `depth` counts the open
parentheses. The space itself is dropped. -/
def splitType (depth : Int) : List Char → List Char × List Char
  | [] => ([], [])
  | c :: cs =>
    if c = ' ' ∧ depth = 0 ∧ ':' ∈ cs then ([], cs)
    else
      let next := if c = '(' then depth + 1 else if c = ')' then depth - 1 else depth
      let (rawType, rest) := splitType next cs
      (c :: rawType, rest)

theorem length_splitType_le (depth : Int) (cs : List Char) :
    (splitType depth cs).2.length ≤ cs.length := by
  fun_induction splitType depth cs with
  | case1 => simp
  | case2 => simp
  | case3 _ _ _ _ _ _ _ h ih => simp only [h] at ih; simp; omega

/-- The parameters of a text without blanks around it. -/
def paramsOf (cs : List Char) : List Parameter :=
  match _h : cs.dropWhile (· != ':') with
  | [] => []
  | _ :: behind =>
    param (trim (cs.takeWhile (· != ':'))) (trim (splitType 0 behind).1) ::
      paramsOf (trim (splitType 0 behind).2)
termination_by cs.length
decreasing_by
  have shorter := (List.dropWhile_sublist (l := cs) (· != ':')).length_le
  have := length_splitType_le 0 behind
  have := length_trim_le (splitType 0 behind).2
  rw [_h] at shorter
  simp only [List.length_cons] at shorter
  omega

/-- The parameters of a text: `name:type` pairs with spaces between them. Text in which no colon is
left belongs to no parameter and is dropped. -/
def splitParams (cs : List Char) : List Parameter := paramsOf (trim cs)

/-- Splits the parameters from the return type at the first `= ReturnType;`. The equals sign stands
at the start or behind a space. `passed` holds the characters before this one, the last first. -/
def splitTail (passed : List Char) : List Char → Option (List Char × List Char)
  | [] => none
  | c :: cs =>
    let found : Option (List Char × List Char) :=
      match c, cs with
      | '=', ' ' :: behind =>
        let word := behind.takeWhile isWordChar
        let closed := word != [] && (behind.dropWhile isWordChar).head? == some ';'
        match passed with
        | [] => if closed then some ([], word) else none
        | ' ' :: before => if closed then some (trim before.reverse, word) else none
        | _ => none
      | _, _ => none
    match found with
    | some parts => some parts
    | none => splitTail (c :: passed) cs

/-- The longest run of word characters that the text ends with. -/
def lastWord (cs : List Char) : List Char := (cs.reverse.takeWhile isWordChar).reverse

/-- Reads a definition from a text with uniform white space. -/
def ofUniform (cs : List Char) : Except Fault Definition :=
  match cs.dropWhile (· != '#') with
  | [] => .error .noHash
  | _ :: behind =>
    let name := lastWord (cs.takeWhile (· != '#'))
    let digits := behind.takeWhile isHexDigit
    if name = [] then .error .noName
    else if digits = [] then .error .noOpcode
    else
      match Opcode.ofDigits digits with
      | .error fault => .error (.opcode fault)
      | .ok opcode =>
        match behind.dropWhile isHexDigit with
        | ' ' :: rest =>
          match splitTail [] rest with
          | some (params, returnType) =>
            .ok ⟨String.ofList name, opcode, splitParams params, String.ofList returnType⟩
          | none => .error .noTail
        | _ => .error .noSpace

/-- Reads a definition from any text. -/
def parse (text : String) : Except Fault Definition := ofUniform (squeeze text.toList)

/-- A parameter as the grammar writes it. -/
def renderParam (p : Parameter) : List Char := p.name.toList ++ ':' :: p.rawType.toList

/-- A definition as the grammar writes it, with single spaces. -/
def render (d : Definition) : String :=
  String.ofList (d.name.toList ++ '#' :: d.opcode.digits.toList ++ [' '] ++
    (d.params.flatMap fun p => renderParam p ++ [' ']) ++ ['=', ' '] ++ d.returnType.toList ++
    [';'])

end Definition

end ContractAbi
