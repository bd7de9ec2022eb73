import ContractAbi.Text.Ascii

/-!
# Opcodes

The tag of a message body. It is kept as the hexadecimal digits that were written, so that a text
with an opcode in it can be given back unchanged; two opcodes are the same tag when their digits
agree up to case.
-/

namespace ContractAbi

/-- One to sixteen hexadecimal digits. -/
structure Opcode where
  digits : String
  isHex : digits.toList.all Text.isHexDigit = true
  nonempty : digits.toList ≠ []
  length_le : digits.toList.length ≤ 16
  deriving DecidableEq

namespace Opcode

/-- The most digits an opcode may have. -/
def maxDigits : Nat := 16

/-- Why a text is no opcode. -/
inductive Fault where
  | empty
  | notHexadecimal (digits : String)
  | tooWide (digits : String)
  deriving DecidableEq

/-- What is reported for a fault. -/
def Fault.message : Fault → String
  | .empty => "empty opcode"
  | .notHexadecimal digits => "opcode '" ++ digits ++ "' is not hexadecimal"
  | .tooWide digits => "opcode '" ++ digits ++ "' is wider than 16 hex digits"

/-- The opcode written with these digits. -/
def ofDigits (cs : List Char) : Except Fault Opcode :=
  if nonempty : cs = [] then .error .empty
  else if isHex : cs.all Text.isHexDigit = true then
    if length_le : cs.length ≤ maxDigits then
      .ok ⟨String.ofList cs, by simpa using isHex, by simpa using nonempty,
        by simpa [maxDigits] using length_le⟩
    else .error (.tooWide (String.ofList cs))
  else .error (.notHexadecimal (String.ofList cs))

/-- The digits of an opcode are read as the opcode. -/
theorem ofDigits_digits (op : Opcode) : ofDigits op.digits.toList = .ok op := by
  have length_le : op.digits.toList.length ≤ maxDigits := op.length_le
  rw [ofDigits, dif_neg op.nonempty, dif_pos op.isHex, dif_pos length_le]
  simp

/-- The digits of a text, which may stand behind `0x` or `0X`. -/
def unmarked (cs : List Char) : List Char :=
  match cs with
  | '0' :: 'x' :: digits => digits
  | '0' :: 'X' :: digits => digits
  | digits => digits

/-- Reads an opcode, with or without its marker. -/
def parse (text : String) : Except Fault Opcode := ofDigits (unmarked text.toList)

/-- The number that the digits stand for. -/
def value (op : Opcode) : Nat := Text.hexNumber op.digits.toList

/-- How many bits the opcode takes at the start of a message body: 32 for up to eight digits, four
a digit beyond that. -/
def bitWidth (op : Opcode) : Nat :=
  if op.digits.toList.length ≤ 8 then 32 else op.digits.toList.length * 4

/-- The opcode with its marker. -/
def text (op : Opcode) : String := "0x" ++ op.digits

/-- Whether two opcodes are the same tag: the case of their digits does not count. -/
def same (a b : Opcode) : Bool := Text.lower a.digits.toList == Text.lower b.digits.toList

theorem same_refl (a : Opcode) : a.same a = true := by simp [same]

theorem same_comm (a b : Opcode) : a.same b = b.same a := by simp [same, Bool.beq_comm]

theorem same_trans {a b c : Opcode} (hab : a.same b = true) (hbc : b.same c = true) :
    a.same c = true := by
  simp only [same, beq_iff_eq] at *
  exact hab.trans hbc

end Opcode

end ContractAbi
