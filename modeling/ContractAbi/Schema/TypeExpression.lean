import ContractAbi.Schema.Category

/-!
# Type expressions

Types as the schema language means them, apart from any text: integers of a width, the words with a
meaning of their own, words that mean nothing here, and the three constructors. An expression is
written with single spaces (`TypeExpr.text`), and what it means is read off its structure
(`TypeExpr.category`), with no regard to the text.
-/

namespace ContractAbi

open Text

/-- The words that have a category by themselves. -/
inductive TypeWord where
  | bool
  | capitalBool
  | lowerMsgAddress
  | msgAddress
  | msgAddressInt
  | address
  | text
  | string
  | cell
  | cellReference
  | slice
  | builder
  deriving DecidableEq

namespace TypeWord

/-- The word itself. -/
def toString : TypeWord → String
  | .bool => "bool"
  | .capitalBool => "Bool"
  | .lowerMsgAddress => "msgaddress"
  | .msgAddress => "MsgAddress"
  | .msgAddressInt => "MsgAddressInt"
  | .address => "address"
  | .text => "text"
  | .string => "string"
  | .cell => "Cell"
  | .cellReference => "^Cell"
  | .slice => "Slice"
  | .builder => "Builder"

/-- What the word means. -/
def category : TypeWord → Category
  | .bool | .capitalBool => .boolean
  | .lowerMsgAddress | .msgAddress | .msgAddressInt | .address => .address
  | .text | .string => .text
  | .cell | .cellReference => .cell
  | .slice => .slice
  | .builder => .builder

end TypeWord

/-- A word without a meaning: none of the words that have one, no integer of a width, and with no
part in it that would make it a cell. -/
structure ForeignWord where
  letters : List Char
  nonempty : letters ≠ []
  plain : ∀ c ∈ letters, isBlank c = false ∧ c ≠ '(' ∧ c ≠ ')'
  noPart : ∀ part ∈ ["Cell", "Slice", "Builder"], ¬ part.toList <:+: letters
  noWord : ∀ word : TypeWord, letters ≠ word.toString.toList
  unsized : ∀ start ∈ ["uint", "int"], ∀ digits, letters = start.toList ++ digits →
    Decimal.isDigits digits = false

/-- A type of the schema language. -/
inductive TypeExpr where
  | uint (bits : Nat) (inRange : 1 ≤ bits ∧ bits ≤ 256)
  | int (bits : Nat) (inRange : 1 ≤ bits ∧ bits ≤ 257)
  | word (w : TypeWord)
  | foreign (w : ForeignWord)
  | maybe (inner : TypeExpr)
  | either (left right : TypeExpr)
  | varUInteger (bound : Nat) (isWord : bound ≤ Category.maxWord)

namespace TypeExpr

/-- The expression as it is written, with single spaces. -/
def text : TypeExpr → String
  | .uint bits _ => "uint" ++ toString bits
  | .int bits _ => "int" ++ toString bits
  | .word w => w.toString
  | .foreign w => String.ofList w.letters
  | .maybe inner => "(Maybe " ++ inner.text ++ ")"
  | .either left right => "(Either " ++ left.text ++ " " ++ right.text ++ ")"
  | .varUInteger bound _ => "(VarUInteger " ++ toString bound ++ ")"

/-- What the expression means. -/
def category : TypeExpr → Category
  | .uint bits _ => .integer bits false
  | .int bits _ => .integer bits true
  | .word w => w.category
  | .foreign w => .unknown (String.ofList w.letters)
  | .maybe inner => .optional inner.category
  | .either left right => .either left.category right.category
  | .varUInteger bound _ => .varUInt bound

end TypeExpr

end ContractAbi
