/-!
# JSON values

A JSON value keeps the members of an object in the order in which they were written. Numbers are
whole numbers where they are written as such; anything with a fraction or an exponent, and the
negative zero, is kept as text, for nothing here computes with it.

The second half reads values back into data. `members?` states how a record is read: by name from
an object, or by position from an array.
-/

namespace ContractAbi

/-- A JSON value. -/
inductive Json where
  | null
  | bool (b : Bool)
  | integer (n : Int)
  /-- A number written with a fraction or an exponent, or `-0`. -/
  | fraction (text : String)
  /-- A number out of the range of 64-bit floating-point numbers: it may be skipped but stands for
  no value. -/
  | hugeNumber (text : String)
  | string (s : String)
  /-- A string literal with an unpaired surrogate escape, or an object with such a name: it may be
  skipped but stands for no value. -/
  | broken
  | array (items : List Json)
  | object (fields : List (String × Json))
  deriving Inhabited

namespace Json

/-- The string of a string value. -/
def string? : Json → Option String
  | .string s => some s
  | _ => none

/-- The truth value of a Boolean. -/
def bool? : Json → Option Bool
  | .bool b => some b
  | _ => none

/-- A whole number from zero to `limit`. -/
def natural? (limit : Nat) : Json → Option Nat
  | .integer n => if 0 ≤ n ∧ n ≤ limit then some n.toNat else none
  | _ => none

/-- The items of an array, each read by `read`. -/
def list? {α : Type} (read : Json → Option α) : Json → Option (List α)
  | .array items => items.mapM read
  | _ => none

/-- The value of a member that may be `null`. -/
def nullable? {α : Type} (read : Json → Option α) : Json → Option (Option α)
  | .null => some none
  | v => (read v).map some

/-- A name from a fixed set, written as a string or as an object whose one member has that name
and no value. -/
def tag? : Json → Option String
  | .string s => some s
  | .object [(s, .null)] => some s
  | _ => none

/-- `tag?` inside a value with several forms, where no value may also be written as an object
without members. -/
def nestedTag? : Json → Option String
  | .object [(s, .object [])] => some s
  | v => tag? v

/-- The value of the member `name`, if the object has one; the whole read fails if it has two. -/
def member? (fields : List (String × Json)) (name : String) : Option (Option Json) :=
  match fields.filter (·.1 == name) with
  | [] => some none
  | [(_, v)] => some (some v)
  | _ => none

/-- The members of a record whose members are `names`, in that order. An object gives them by name,
and its other members are ignored; an array gives them by position and may stop early. -/
def members? (names : List String) : Json → Option (List (Option Json))
  | .object fields => names.mapM (member? fields)
  | .array items =>
    if items.length ≤ names.length then
      some (items.map some ++ List.replicate (names.length - items.length) none)
    else none
  | _ => none

/-- A member that has to be there. -/
def required? {α : Type} (read : Json → Option α) : Option Json → Option α
  | some v => read v
  | none => none

/-- A member that stands for `default` when it is absent. -/
def optional? {α : Type} (default : α) (read : Json → Option α) : Option Json → Option α
  | some v => read v
  | none => some default

mutual

/-- Whether every string and name in the value is text and every number is in range. -/
def isSound : Json → Bool
  | .broken => false
  | .hugeNumber _ => false
  | .array items => areSound items
  | .object fields => fieldsAreSound fields
  | _ => true

/-- `isSound` for the items of an array. -/
def areSound : List Json → Bool
  | [] => true
  | v :: vs => isSound v && areSound vs

/-- `isSound` for the members of an object. -/
def fieldsAreSound : List (String × Json) → Bool
  | [] => true
  | (_, v) :: fs => isSound v && fieldsAreSound fs

end

mutual

/-- How deep arrays and objects are nested. -/
def nesting : Json → Nat
  | .array items => itemsNesting items + 1
  | .object fields => fieldsNesting fields + 1
  | _ => 0

/-- The deepest nesting among the items of an array. -/
def itemsNesting : List Json → Nat
  | [] => 0
  | v :: vs => max (nesting v) (itemsNesting vs)

/-- The deepest nesting among the members of an object. -/
def fieldsNesting : List (String × Json) → Nat
  | [] => 0
  | (_, v) :: fs => max (nesting v) (fieldsNesting fs)

end

mutual

/-- The value with the members of every object in the order of their names. -/
def sorted : Json → Json
  | .array items => .array (sortedItems items)
  | .object fields => .object ((sortedFields fields).mergeSort fun a b => decide (a.1 ≤ b.1))
  | v => v

/-- `sorted` on the items of an array. -/
def sortedItems : List Json → List Json
  | [] => []
  | v :: vs => sorted v :: sortedItems vs

/-- `sorted` on the values of the members of an object. -/
def sortedFields : List (String × Json) → List (String × Json)
  | [] => []
  | (k, v) :: fs => (k, sorted v) :: sortedFields fs

end

/-- A list of strings. -/
def strings (ss : List String) : Json := .array (ss.map .string)

/-- A member, unless it is absent. -/
def optionalMember (name : String) : Option String → List (String × Json)
  | none => []
  | some s => [(name, .string s)]

/-- A string, or `null` where there is none. -/
def orNull : Option String → Json
  | none => .null
  | some s => .string s

/-- A number of things. -/
def count (n : Nat) : Json := .integer n

end Json

end ContractAbi
