import ContractAbi.Json.Basic
import ContractAbi.Json.Magnitude
import ContractAbi.Text.Ascii
import ContractAbi.Text.Decimal

/-!
# Reading JSON

A reader for JSON texts. It is strict: no comma before a closing bracket, no leading zeros, no raw
control characters in strings, and nothing but white space behind the value. A reader here takes
the text that is left and returns what it read together with the rest of the text; the functions
that nest carry a bound on the calls they may still make, which `parse` takes from the length of
the text, so that it is never reached.
-/

namespace ContractAbi.Json

/-- The text behind the white space it starts with. -/
def skipSpace (cs : List Char) : List Char :=
  cs.dropWhile fun c => c == ' ' || c == '\n' || c == '\t' || c == '\r'

/-- The number that four hexadecimal digits stand for. -/
def unit? (a b c d : Char) : Option Nat :=
  if [a, b, c, d].all Text.isHexDigit then some (Text.hexNumber [a, b, c, d]) else none

/-- What a one-letter escape stands for. -/
def escaped? (c : Char) : Option Char :=
  match c with
  | '"' => some '"'
  | '\\' => some '\\'
  | '/' => some '/'
  | 'b' => some (Char.ofNat 8)
  | 'f' => some (Char.ofNat 12)
  | 'n' => some '\n'
  | 'r' => some '\r'
  | 't' => some '\t'
  | _ => none

/-- The first half of a surrogate pair. -/
def isHighSurrogate (u : Nat) : Bool := 0xD800 ≤ u && u < 0xDC00

/-- The second half of a surrogate pair. -/
def isLowSurrogate (u : Nat) : Bool := 0xDC00 ≤ u && u < 0xE000

/-- The character of a surrogate pair. -/
def pairChar (high low : Nat) : Char :=
  Char.ofNat (0x10000 + (high - 0xD800) * 0x400 + (low - 0xDC00))

/-- What a string literal holds so far, last character first; `none` once a surrogate stood alone.
An open first half is one that no second half followed. -/
def closeHalf (seen : Option (List Char)) (openHalf : Option Nat) : Option (List Char) :=
  if openHalf.isSome then none else seen

/-- The rest of a string literal behind its opening quote, given what it holds so far and the
first half of a surrogate pair, if one came last. -/
def readString (seen : Option (List Char)) (openHalf : Option Nat) (cs : List Char) :
    Option (Json × List Char) :=
  match cs with
  | [] => none
  | '"' :: rest =>
    some (match closeHalf seen openHalf with
      | some cs => .string (String.ofList cs.reverse)
      | none => .broken, rest)
  | '\\' :: 'u' :: a :: b :: c :: d :: rest =>
    match unit? a b c d with
    | none => none
    | some u =>
      if isLowSurrogate u then
        readString (openHalf.bind fun high => seen.map (pairChar high u :: ·)) none rest
      else if isHighSurrogate u then readString (closeHalf seen openHalf) (some u) rest
      else readString ((closeHalf seen openHalf).map (Char.ofNat u :: ·)) none rest
  | '\\' :: c :: rest =>
    match escaped? c with
    | some e => readString ((closeHalf seen openHalf).map (e :: ·)) none rest
    | none => none
  | c :: rest =>
    if c.toNat < 0x20 then none else readString ((closeHalf seen openHalf).map (c :: ·)) none rest
termination_by cs.length

/-- A run of digits and the text behind it. -/
def spanDigits (cs : List Char) : List Char × List Char :=
  (cs.takeWhile Char.isDigit, cs.dropWhile Char.isDigit)

/-- A fraction with its point; nothing if there is no point. -/
def readFraction (cs : List Char) : Option (List Char × List Char) :=
  match cs with
  | '.' :: rest =>
    let (ds, rest) := spanDigits rest
    if ds.isEmpty then none else some ('.' :: ds, rest)
  | cs => some ([], cs)

/-- An exponent with its letter; nothing if there is no letter. -/
def readExponent (cs : List Char) : Option (List Char × List Char) :=
  match cs with
  | c :: rest =>
    if c = 'e' ∨ c = 'E' then
      let (sign, rest) :=
        match rest with
        | '+' :: rest => (['+'], rest)
        | '-' :: rest => (['-'], rest)
        | rest => ([], rest)
      let (ds, rest) := spanDigits rest
      if ds.isEmpty then none else some (c :: sign ++ ds, rest)
    else some ([], cs)
  | [] => some ([], cs)

/-- The number that the digits of an exponent stand for, which may be missing with its letter. -/
def exponentValue (power : List Char) : Int :=
  match power.drop 1 with
  | '+' :: ds => Text.Decimal.value ds
  | '-' :: ds => -(Text.Decimal.value ds : Int)
  | ds => Text.Decimal.value ds

/-- A number without its sign. -/
def readMagnitude (negative : Bool) (cs : List Char) : Option (Json × List Char) :=
  let (whole, rest) :=
    match cs with
    | '0' :: rest => (['0'], rest)
    | cs => spanDigits cs
  if whole.isEmpty then none
  else do
    let (tenths, rest) ← readFraction rest
    let (power, rest) ← readExponent rest
    let n := Text.Decimal.value whole
    let isWhole := tenths.isEmpty && power.isEmpty && !(negative && n == 0)
    let text := String.ofList ((if negative then ['-'] else []) ++ whole ++ tenths ++ power)
    let isHuge := Magnitude.isOutOfRange whole (tenths.drop 1) (exponentValue power)
    return (if isHuge then .hugeNumber text
      else if isWhole then .integer (if negative then -(n : Int) else n)
      else .fraction text, rest)

/-- A number. -/
def readNumber (cs : List Char) : Option (Json × List Char) :=
  match cs with
  | '-' :: rest => readMagnitude true rest
  | cs => readMagnitude false cs

mutual

/-- A value; white space may stand before it. -/
def readValue (bound : Nat) (cs : List Char) : Option (Json × List Char) :=
  match bound with
  | 0 => none
  | bound + 1 =>
    match skipSpace cs with
    | 'n' :: 'u' :: 'l' :: 'l' :: rest => some (.null, rest)
    | 't' :: 'r' :: 'u' :: 'e' :: rest => some (.bool true, rest)
    | 'f' :: 'a' :: 'l' :: 's' :: 'e' :: rest => some (.bool false, rest)
    | '"' :: rest => readString (some []) none rest
    | '[' :: rest =>
      match skipSpace rest with
      | ']' :: rest => some (.array [], rest)
      | rest => (readItems bound rest []).map fun (items, rest) => (.array items, rest)
    | '\x7b' :: rest =>
      match skipSpace rest with
      | '\x7d' :: rest => some (.object [], rest)
      | rest => readFields bound rest (some [])
    | cs => readNumber cs

/-- The items of an array up to its closing bracket; `seen` holds those before, last first. -/
def readItems (bound : Nat) (cs : List Char) (seen : List Json) : Option (List Json × List Char) :=
  match bound with
  | 0 => none
  | bound + 1 =>
    match readValue bound cs with
    | none => none
    | some (v, rest) =>
      match skipSpace rest with
      | ',' :: rest => readItems bound rest (v :: seen)
      | ']' :: rest => some ((v :: seen).reverse, rest)
      | _ => none

/-- The members of an object up to its closing brace; `seen` holds those before, last first, and is
`none` once a name was no text. -/
def readFields (bound : Nat) (cs : List Char) (seen : Option (List (String × Json))) :
    Option (Json × List Char) :=
  match bound with
  | 0 => none
  | bound + 1 =>
    match skipSpace cs with
    | '"' :: rest =>
      match readString (some []) none rest with
      | some (k, rest) =>
        match skipSpace rest with
        | ':' :: rest =>
          match readValue bound rest with
          | none => none
          | some (v, rest) =>
            let seen := k.string?.bind fun name => seen.map ((name, v) :: ·)
            match skipSpace rest with
            | ',' :: rest => readFields bound rest seen
            | '\x7d' :: rest =>
              some (match seen with
                | some fields => .object fields.reverse
                | none => .broken, rest)
            | _ => none
        | _ => none
      | none => none
    | _ => none

end

/-- The value that the whole text stands for. -/
def parse (text : String) : Option Json :=
  let cs := text.toList
  match readValue (2 * cs.length + 2) cs with
  | some (v, rest) => if (skipSpace rest).isEmpty then some v else none
  | none => none

end ContractAbi.Json
