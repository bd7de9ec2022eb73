import ContractAbi.Session.Basic

/-!
# Scripted runtimes

A runtime that answers from a script, whatever was called before: each get-method with a fixed
reply, and messages by their opcode.
-/

namespace ContractAbi

/-- The replies of a scripted runtime. -/
structure Script where
  methods : List (String × Except CallError (List WireValue))
  /-- The replies to messages with an opcode of 32 bits, written in eight digits. -/
  opcodes : List (String × Except CallError Outcome)
  /-- The reply to all other messages. Without one they succeed in one transaction. -/
  send : Option (Except CallError Outcome)
  /-- The addresses at which nothing answers. -/
  unreachable : List Address

namespace Script

/-- The first 32 bits of a message body in eight digits. -/
def opcodeText (payload : Cell) : String :=
  let digits := Text.hexDigits (Bits.toNat (payload.bits.take 32))
  String.ofList (List.replicate (8 - digits.length) '0' ++ digits)

/-- The reply of a get-method. -/
def replyTo (s : Script) (method : String) : Except CallError (List WireValue) :=
  match s.methods.find? (·.1 == method) with
  | some (_, reply) => reply
  | none => .error (.ofExitCode 11 ("no method " ++ method))

/-- What came of a message. -/
def outcomeOf (s : Script) (payload : Cell) : Except CallError Outcome :=
  match s.opcodes.find? (·.1 == opcodeText payload) with
  | some (_, reply) => reply
  | none => s.send.getD (.ok ⟨[⟨payload.hashHex, true, some 0⟩]⟩)

/-- What is reported where nothing answers. -/
def silence : CallError := .ofExitCode 2 "no response"

/-- The runtime that answers from a script. -/
def runtime (s : Script) : Runtime where
  reply _
    | .query address method _ =>
      if address ∈ s.unreachable then .error silence else s.replyTo method
    | .send address payload =>
      if address ∈ s.unreachable then .error silence else s.outcomeOf payload

end Script

end ContractAbi
