import ContractAbi.Address.Basic
import ContractAbi.Address.Base64
import ContractAbi.Address.Checksum

/-!
# The friendly form of addresses

Thirty-six bytes in base 64: a tag, the workchain, the hash, and the checksum of all that. The tag
tells whether a message that fails is sent back, and whether the address is for a test network.
Reading takes both base 64 alphabets and ignores the flags.
-/

namespace ContractAbi.Address

/-- The tag of an address to which failing messages are sent back from. -/
def bounceableTag : UInt8 := 0x11

/-- The tag of an address from which failing messages do not come back. -/
def plainTag : UInt8 := 0x51

/-- The bit that marks an address of a test network. -/
def testFlag : UInt8 := 0x80

/-- The tag for a choice of flags. -/
def tag (bounceable testnet : Bool) : UInt8 :=
  let base := if bounceable then bounceableTag else plainTag
  if testnet then base ||| testFlag else base

/-- What the checksum is taken of. -/
def payload (a : Address) (bounceable testnet : Bool) : List UInt8 :=
  tag bounceable testnet :: UInt8.ofNat (a.workchain.toInt % 256).toNat :: a.hash

/-- The friendly form. -/
def friendly (a : Address) (bounceable testnet : Bool) : String :=
  let body := a.payload bounceable testnet
  String.ofList (Base64.encode (body ++ Checksum.bytes (Checksum.crc16 body)))

/-- A character in the alphabet that is safe in URLs. -/
def safeChar (c : Char) : Char := if c = '+' then '-' else if c = '/' then '_' else c

/-- Reads the friendly form. -/
def ofFriendly (text : String) : Except Fault Address :=
  match Base64.decode (text.toList.map safeChar) with
  | none => .error (.invalidFriendly text)
  | some bytes =>
    match bytes with
    | t :: w :: rest =>
      if bytes.length ≠ 36 then .error (.invalidFriendly text)
      else if t &&& ~~~testFlag ≠ bounceableTag ∧ t &&& ~~~testFlag ≠ plainTag then
        .error (.invalidFriendly text)
      else if Checksum.bytes (Checksum.crc16 (bytes.take 34)) ≠ bytes.drop 34 then
        .error (.checksum text)
      else
        match ofHash? (Int8.ofNat w.toNat) (rest.take 32) with
        | some a => .ok a
        | none => .error (.invalidFriendly text)
    | _ => .error (.invalidFriendly text)

/-- Reads either form. Blanks around it do not count. -/
def parse (text : String) : Except Fault Address :=
  let text := Text.trimmed text
  if text.toList.contains ':' then ofRaw text else ofFriendly text

end ContractAbi.Address
