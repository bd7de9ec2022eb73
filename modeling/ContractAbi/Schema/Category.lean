import ContractAbi.Schema.Definition
import ContractAbi.Text.Decimal

/-!
# Type categories

What the type of a parameter means for the values it may take. Every type expression has a
category: one that fits no rule is `unknown` and carries its text.
-/

namespace ContractAbi

open Text

/-- The meaning of a type expression. -/
inductive Category where
  | integer (bits : Nat) (signed : Bool)
  | boolean
  | address
  | cell
  | slice
  | builder
  | text
  /-- `(Maybe X)` -/
  | optional (inner : Category)
  /-- `(Either X Y)` -/
  | either (left right : Category)
  /-- `(VarUInteger n)`: the value takes fewer than `bound` bytes. -/
  | varUInt (bound : Nat)
  | unknown (raw : String)
  deriving DecidableEq, Inhabited

namespace Category

/-- The bound of a `VarUInteger` whose bound is not a number. -/
def defaultBound : Nat := 16

/-- The width of a get-method integer without a type. -/
def defaultWidth : Nat := 257

/-- The widest word that widths and bounds are read as. -/
def maxWord : Nat := 65535

/-- Cells, slices, builders, and what is stored as a nested cell. -/
def isCellLike : Category → Bool
  | .cell | .slice | .builder | .optional _ | .either _ _ => true
  | _ => false

/-- Whether no rule fitted the type. -/
def isUnknown : Category → Bool
  | .unknown _ => true
  | _ => false

/-- A category in words. -/
def describe : Category → String
  | .integer bits true => "int" ++ toString bits
  | .integer bits false => "uint" ++ toString bits
  | .boolean => "bool"
  | .address => "address"
  | .cell => "cell"
  | .slice => "slice"
  | .builder => "builder"
  | .text => "text"
  | .optional inner => "(Maybe " ++ describe inner ++ ")"
  | .either left right => "(Either " ++ describe left ++ " " ++ describe right ++ ")"
  | .varUInt bound => "(VarUInteger " ++ toString bound ++ ")"
  | .unknown raw => "?" ++ raw

/-- An integer of a width that is written out, from one bit to `widest`. -/
def sized? (signed : Bool) (widest : Nat) (digits : List Char) : Option Category :=
  match Decimal.digits? maxWord digits with
  | some bits => if 1 ≤ bits ∧ bits ≤ widest then some (.integer bits signed) else none
  | none => none

/-- `uint1` to `uint256` and `int1` to `int257`. -/
def fixedInt? (token : List Char) : Option Category :=
  match dropHead? "uint".toList token with
  | some digits => sized? false 256 digits
  | none =>
    match dropHead? "int".toList token with
    | some digits => sized? true 257 digits
    | none => none

/-- The types that are single words. -/
def literal? (token : List Char) : Option Category :=
  let word := String.ofList token
  if word = "bool" ∨ word = "Bool" then some .boolean
  else if word = "msgaddress" ∨ word = "MsgAddress" ∨ word = "MsgAddressInt" ∨ word = "address" then
    some .address
  else if word = "text" ∨ word = "string" then some .text
  else none

/-- The arguments of `(name args)`. -/
def constructorArgs? (name token : List Char) : Option (List Char) := do
  let opened ← dropHead? ['('] token
  let inner ← dropTail? [')'] opened
  let args ← dropHead? name inner
  if args = [] then return [] else dropHead? [' '] args

theorem length_lt_of_constructorArgs? {name token args : List Char}
    (h : constructorArgs? name token = some args) : args.length < token.length := by
  simp only [constructorArgs?, Option.bind_eq_bind, Option.bind_eq_some_iff,
    dropHead?_eq_some_iff, dropTail?_eq_some_iff] at h
  obtain ⟨opened, rfl, inner, rfl, rest, rfl, h⟩ := h
  split at h
  · cases h
    simp
  · rw [dropHead?_eq_some_iff] at h
    subst h
    simp
    omega

/-- The pieces of a text between the spaces outside all parentheses; empty pieces are dropped.
`depth` counts the open parentheses and `piece` holds the piece that is open, last character
first. -/
def splitArgs (depth : Int) (piece : List Char) : List Char → List (List Char)
  | [] => if piece = [] then [] else [piece.reverse]
  | c :: cs =>
    if c = ' ' ∧ depth = 0 then
      if piece = [] then splitArgs depth [] cs else piece.reverse :: splitArgs depth [] cs
    else
      let next := if c = '(' then depth + 1 else if c = ')' then depth - 1 else depth
      splitArgs next (c :: piece) cs

/-- An argument is no longer than the text that is split. -/
theorem length_le_of_mem_splitArgs {depth : Int} {piece cs arg : List Char}
    (h : arg ∈ splitArgs depth piece cs) : arg.length ≤ piece.length + cs.length := by
  induction cs generalizing depth piece with
  | nil =>
    simp only [splitArgs] at h
    split at h <;> simp_all
  | cons c cs ih =>
    simp only [splitArgs] at h
    split at h
    · split at h
      · have := ih h
        simp only [List.length_nil, List.length_cons] at *
        omega
      · rcases List.mem_cons.1 h with rfl | h
        · simp
        · have := ih h
          simp only [List.length_nil, List.length_cons] at *
          omega
    · have := ih h
      simp only [List.length_cons] at *
      omega

theorem length_le_of_splitArgs {args arg : List Char} (h : arg ∈ splitArgs 0 [] args) :
    (trim arg).length ≤ args.length := by
  have := length_le_of_mem_splitArgs h
  have := length_trim_le arg
  simp only [List.length_nil] at *
  omega

/-- The category of a type expression without blanks around it. The first rule that fits decides:
integers of a width, single words, the three constructors, a text with `Cell`, `Slice` or `Builder`
in it. -/
def ofToken (token : List Char) : Category :=
  match fixedInt? token with
  | some c => c
  | none =>
    match literal? token with
    | some c => c
    | none =>
      match _hm : constructorArgs? "Maybe".toList token with
      | some args => .optional (ofToken (trim args))
      | none =>
        match _he : constructorArgs? "Either".toList token with
        | some args =>
          match _ha : splitArgs 0 [] args with
          | [] => .either (.unknown "") (.unknown "")
          | [left] => .either (ofToken (trim left)) (.unknown "")
          | left :: right :: _ => .either (ofToken (trim left)) (ofToken (trim right))
        | none =>
          match constructorArgs? "VarUInteger".toList token with
          | some args => .varUInt ((Decimal.natural? maxWord (trim args)).getD defaultBound)
          | none =>
            if contains "Cell".toList token then .cell
            else if contains "Slice".toList token then .slice
            else if contains "Builder".toList token then .builder
            else .unknown (String.ofList token)
termination_by token.length
decreasing_by
  · have := length_lt_of_constructorArgs? _hm
    have := length_trim_le args
    omega
  all_goals have := length_lt_of_constructorArgs? _he
  · have := length_le_of_splitArgs (show left ∈ splitArgs 0 [] args by rw [_ha]; simp)
    omega
  · have := length_le_of_splitArgs (show left ∈ splitArgs 0 [] args by rw [_ha]; simp)
    omega
  · have := length_le_of_splitArgs (show right ∈ splitArgs 0 [] args by rw [_ha]; simp)
    omega

/-- The category of a type expression. -/
def ofChars (raw : List Char) : Category := ofToken (trim raw)

/-- `ofChars` on strings. -/
def ofText (raw : String) : Category := ofChars raw.toList

/-- The category of a parameter. One without a type falls back on the tag it was declared with. -/
def ofParameter (p : Parameter) : Category :=
  if Text.isAllBlank p.rawType then
    match p.category with
    | some "int" => .integer defaultWidth true
    | some "cell" => .cell
    | some "slice" => .slice
    | some other => .unknown other
    | none => .unknown ""
  else ofText p.rawType

end Category

end ContractAbi
