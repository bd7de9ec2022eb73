import ContractAbi.Contract.Basic
import ContractAbi.Proofs.Binding.Sends
import ContractAbi.Proofs.Contract.FieldEncoding
import ContractAbi.Proofs.Schema.Widths
import ContractAbi.Proofs.Text.Ascii

/-!
# When a message body is built, and what it holds

A message of a model is built exactly for the arguments that its fields accept and that fit into a
cell (`Send.Accepts`), and then it is the opcode followed by the fields in order (`Send.layout`).
Nothing else can fail: the opcode always fits into its width, and the message names its own send.
-/

namespace ContractAbi

namespace Opcode

theorem bitWidth_le (op : Opcode) : op.bitWidth ≤ 64 := by
  have := op.length_le
  unfold bitWidth
  split <;> omega

theorem length_digits_le_bitWidth (op : Opcode) : 4 * op.digits.toList.length ≤ op.bitWidth := by
  unfold bitWidth
  split <;> omega

/-- The number that an opcode stands for fits into its width. -/
theorem value_lt (op : Opcode) : op.value < 2 ^ op.bitWidth := by
  have bounded : op.value < 2 ^ (4 * op.digits.toList.length) := by
    rw [Nat.pow_mul]
    exact Text.hexNumber_lt op.digits.toList
  have wide : 2 ^ (4 * op.digits.toList.length) ≤ 2 ^ op.bitWidth :=
    Nat.pow_le_pow_right (by decide) op.length_digits_le_bitWidth
  exact Nat.lt_of_lt_of_le bounded wide

/-- No digits are lost when the number is taken as a machine word. -/
theorem toNat_ofNat_value (op : Opcode) : (UInt64.ofNat op.value).toNat = op.value := by
  have word : 2 ^ op.bitWidth ≤ 2 ^ 64 := Nat.pow_le_pow_right (by decide) op.bitWidth_le
  exact UInt64.toNat_ofNat_of_lt' (Nat.lt_of_lt_of_le op.value_lt word)

end Opcode

namespace Binding

variable {s : Send} {args : List WireValue} {cell : Cell}

/-- The arguments that a body is built for: one for each field, each of a kind and in the range that
its field takes, and all of them together no larger than a cell. -/
structure Send.Accepts (s : Send) (args : List WireValue) : Prop where
  arity : args.length = s.body.fields.length
  kinds : ∀ p ∈ s.body.fields.zip args, p.1.storeOp.Takes p.2
  ranges : ∀ p ∈ s.body.fields.zip args, p.1.storeOp.InRange p.2
  bits : s.body.opcode.bitWidth +
    ((s.body.fields.zip args).map fun p => (p.1.storeOp.encodedBits p.2).length).sum ≤ 1023
  refs : ((s.body.fields.zip args).map fun p => (p.1.storeOp.encodedRefs p.2).length).sum ≤ 4

/-- The opcode, then the fields in order. -/
def Send.layout (s : Send) (args : List WireValue) : Cell where
  bits := Bits.ofNat s.body.opcode.bitWidth s.body.opcode.value ++
    fieldBits (s.body.fields.zip args)
  refs := fieldRefs (s.body.fields.zip args)

/-- The builder that holds the opcode. -/
def afterOpcode (op : Opcode) : Builder where
  bits := Bits.ofNat op.bitWidth op.value
  refs := []
  bits_le := by
    rw [Bits.length_ofNat]
    exact Nat.le_trans op.bitWidth_le (by decide)
  refs_le := Nat.zero_le _

theorem grows_afterOpcode (op : Opcode) :
    Builder.empty.Grows (Bits.ofNat op.bitWidth op.value) [] (afterOpcode op) := ⟨rfl, rfl⟩

theorem store_opcode (op : Opcode) :
    Store.u64 (UInt64.ofNat op.value) op.bitWidth Builder.empty = .ok () (afterOpcode op) := by
  rw [Store.u64_eq_ok, op.toNat_ofNat_value]
  exact ⟨op.bitWidth_le, op.value_lt, grows_afterOpcode op⟩

theorem bitsLeft_afterOpcode (op : Opcode) : (afterOpcode op).bitsLeft = 1023 - op.bitWidth := by
  rw [(grows_afterOpcode op).bitsLeft_eq, Bits.length_ofNat]
  rfl

/-- A builder that has grown by the fields behind the opcode makes the cell of both. -/
theorem Send.build_eq_layout {b : Builder}
    (grows : (afterOpcode s.body.opcode).Grows (fieldBits (s.body.fields.zip args))
      (fieldRefs (s.body.fields.zip args)) b) : b.build = s.layout args :=
  congrArg₂ Cell.mk grows.bits_eq grows.refs_eq

/-- Only the number of arguments and the fields decide whether there is a payload. -/
theorem Send.payload_stored : s.payload args = .ok cell ↔
    args.length = s.body.fields.length ∧ ∃ b,
      storeFields s.message (s.body.fields.zip args) (afterOpcode s.body.opcode) = .ok b ∧
        b.build = cell := by
  by_cases arity : args.length = s.body.fields.length
  · simp only [Send.payload, arity, store_opcode]
    cases storeFields s.message (s.body.fields.zip args) (afterOpcode s.body.opcode) <;>
      simp [bind, Except.bind, pure, Except.pure]
  · simp [Send.payload, arity, bind, Except.bind, throw, throwThe, MonadExceptOf.throw]

/-- Fields whose operations are plain are stored behind the opcode if they are accepted. -/
theorem Send.payload_eq_ok (plain : ∀ f ∈ s.body.fields, f.storeOp.IsPlain) :
    s.payload args = .ok cell ↔ s.Accepts args ∧ cell = s.layout args := by
  have plainZip : ∀ p ∈ s.body.fields.zip args, p.1.storeOp.IsPlain := by
    intro p member
    exact plain p.1 (List.of_mem_zip member).1
  rw [payload_stored]
  constructor
  · rintro ⟨arity, b, stored, rfl⟩
    obtain ⟨taken, grows⟩ := (storeFields_eq_ok plainZip).mp stored
    obtain ⟨room, place⟩ := grows.room
    rw [bitsLeft_afterOpcode, fieldBits, List.length_flatMap] at room
    rw [fieldRefs, List.length_flatMap] at place
    have narrow := s.body.opcode.bitWidth_le
    exact ⟨⟨arity, fun p member => (taken p member).1, fun p member => (taken p member).2,
      by omega, place⟩, build_eq_layout grows⟩
  · rintro ⟨accepted, rfl⟩
    have room := accepted.bits
    have place := accepted.refs
    rw [← List.length_flatMap] at room place
    -- There is room for all fields, so that there is a builder that has grown by them.
    obtain ⟨b, grows⟩ : ∃ b, (afterOpcode s.body.opcode).Grows
        (fieldBits (s.body.fields.zip args)) (fieldRefs (s.body.fields.zip args)) b := by
      rw [Builder.exists_grows_iff, bitsLeft_afterOpcode]
      exact ⟨Nat.le_sub_of_add_le' room, place⟩
    refine ⟨accepted.arity, b, (storeFields_eq_ok plainZip).mpr ⟨?_, grows⟩, build_eq_layout grows⟩
    intro p member
    exact ⟨accepted.kinds p member, accepted.ranges p member⟩

end Binding

/-- The bounds of fields are read as words. -/
theorem Category.Bounded.isPlain {c : Category} (bounded : c.Bounded) (noText : c.storeOp ≠ .text) :
    c.storeOp.IsPlain := by
  cases c with
  | integer bits signed => cases signed <;> trivial
  | varUInt bound => exact bounded
  | text => exact absurd rfl noText
  | _ => trivial

namespace Contract

open Binding (Model Send)

variable {doc : Document} {contract : Contract} {s : Send}

/-- Sending by name builds the payload of the message. -/
theorem payload_of_mem (ofModel : contract.type ∈ (Model.ofDocument doc).classes)
    (ofClass : s ∈ contract.type.sends) (args : List WireValue) :
    contract.payload s.message args = s.payload args := by
  have found : contract.sendOf s.message = .ok s := by
    rw [sendOf, Model.send?_of_mem ofModel ofClass]
  rw [payload, found]
  rfl

/-- The categories of fields are read from the types of parameters. -/
theorem bounded_fields (ofModel : contract.type ∈ (Model.ofDocument doc).classes)
    (ofClass : s ∈ contract.type.sends) : ∀ f ∈ s.body.fields, f.category.Bounded := by
  obtain ⟨d, fields⟩ := Model.exists_bodyFields ofModel ofClass
  intro f member
  rw [fields] at member
  obtain ⟨p, -, category⟩ := Binding.exists_of_mem_fieldsOf member
  rw [category]
  exact Category.bounded_ofText p.rawType

/-- Only texts take up whatever room is left. -/
theorem isPlain_of_mem (ofModel : contract.type ∈ (Model.ofDocument doc).classes)
    (ofClass : s ∈ contract.type.sends) (noText : ∀ f ∈ s.body.fields, f.storeOp ≠ .text) :
    ∀ f ∈ s.body.fields, f.storeOp.IsPlain := by
  intro f member
  exact (bounded_fields ofModel ofClass f member).isPlain (noText f member)

/-- A message of a model without texts is built exactly for the arguments that its fields accept,
and then it is the opcode followed by the fields. -/
theorem payload_eq_ok_iff (ofModel : contract.type ∈ (Model.ofDocument doc).classes)
    (ofClass : s ∈ contract.type.sends) (noText : ∀ f ∈ s.body.fields, f.storeOp ≠ .text)
    (args : List WireValue) (cell : Cell) :
    contract.payload s.message args = .ok cell ↔ s.Accepts args ∧ cell = s.layout args := by
  rw [payload_of_mem ofModel ofClass]
  exact Send.payload_eq_ok (isPlain_of_mem ofModel ofClass noText)

/-- A description with one message, whose fields are stored by six operations. -/
def transfers : Document where
  interfaces := [⟨"nft_item", none, none, [], ["nft_transfer"], []⟩]
  getMethods := []
  messages := [⟨"nft_transfer", .parsed ⟨"transfer", ⟨"5fcc3d14", by decide, by decide, by decide⟩,
    [⟨none, "query_id", "uint64"⟩, ⟨none, "new_owner", "MsgAddress"⟩, ⟨none, "bounce", "Bool"⟩,
      ⟨none, "custom_payload", "(Maybe ^Cell)"⟩, ⟨none, "forward_amount", "(VarUInteger 16)"⟩,
      ⟨none, "forward_payload", "(Either Cell ^Cell)"⟩], "InternalMsgBody"⟩⟩]

def nftTransfer : Send where
  message := "nft_transfer"
  ident := "send_nft_transfer"
  probeIdent := "probe_send_nft_transfer"
  body := ⟨"Transfer", "transfer", ⟨"5fcc3d14", by decide, by decide, by decide⟩,
    [⟨"query_id", "query_id", .integer 64 false⟩, ⟨"new_owner", "new_owner", .address⟩,
      ⟨"bounce", "bounce", .boolean⟩, ⟨"custom_payload", "custom_payload", .optional .cell⟩,
      ⟨"forward_amount", "forward_amount", .varUInt 16⟩,
      ⟨"forward_payload", "forward_payload", .either .cell .cell⟩], "InternalMsgBody"⟩

/-- A contract with the interface of the description. -/
def nftItem : Contract where
  type := ⟨"nft_item", "NftItem", "nft_item", none, ["nft_item"], [], [nftTransfer], []⟩
  address := .zero

/-- Arguments for the message, the new owner as a text. -/
def transferArgs : List WireValue :=
  [.int 9, .text Address.zero.raw, .bool true, .slice .empty, .int 1000000, .cell .empty]

/-- The bits of the message with these arguments: the opcode, the number, the address, the two
flags, and three bytes behind their number. -/
def transferBits : List Bool :=
  Bits.ofNat 32 0x5fcc3d14 ++ Bits.ofNat 64 9 ++ Store.addressBits .zero ++ [true] ++ [true] ++
    (Bits.ofNat 4 3 ++ Bits.ofNat 24 1000000)

/-- A transfer with a number, an address that is given as a text, a flag, an optional cell, an
amount of three bytes, and a cell on the right. -/
theorem payload_nftTransfer :
    nftItem.type ∈ (Model.ofDocument transfers).classes ∧ nftTransfer ∈ nftItem.type.sends ∧
      (∀ f ∈ nftTransfer.body.fields, f.storeOp ≠ .text) ∧
      nftItem.payload "nft_transfer" transferArgs = .ok ⟨transferBits, [.empty, .empty]⟩ := by
  have ofModel : nftItem.type ∈ (Model.ofDocument transfers).classes := by decide +kernel
  have ofClass : nftTransfer ∈ nftItem.type.sends := List.mem_singleton_self nftTransfer
  have noText : ∀ f ∈ nftTransfer.body.fields, f.storeOp ≠ .text := by decide
  have owner : Address.parse Address.zero.raw = .ok .zero := by decide +kernel
  have accepted : nftTransfer.Accepts transferArgs := by
    constructor
    · rfl
    · simp only [nftTransfer, transferArgs, List.zip_cons_cons, List.zip_nil_right,
        List.forall_mem_cons]
      exact ⟨.uint .., .addressText owner, .bit _, .maybeSlice _, .varUInt .., .cell _,
        List.forall_mem_nil _⟩
    · simp only [nftTransfer, transferArgs, List.zip_cons_cons, List.zip_nil_right,
        List.forall_mem_cons]
      exact ⟨⟨by decide, by decide⟩, trivial, trivial, trivial, ⟨by decide, by decide, by decide⟩,
        trivial, List.forall_mem_nil _⟩
    · decide +kernel
    · decide
  have bits : (nftTransfer.layout transferArgs).bits = transferBits := by decide +kernel
  refine ⟨ofModel, ofClass, noText, ?_⟩
  refine (payload_eq_ok_iff ofModel ofClass noText _ _).mpr ⟨accepted, ?_⟩
  rw [← bits]
  rfl

end Contract

end ContractAbi
