import ContractAbi.Proofs.Cell.Scanning
import ContractAbi.Proofs.Contract.ReadBack

/-!
# Which payloads pass the opcode check of generated code

Before any field, the generated load of a body reads as many bits as its opcode has and compares
their number with the opcode. A payload passes this check exactly if it begins with the bits of the
opcode (`loadOpcode_payload_eq_ok_iff`). Among opcodes with equally many digits these are the
payloads with the same opcode. Otherwise opcodes that are different may have the same bits, or one
of them the first bits of the other, for they are compared as digits and stored as numbers, of a
width that depends on how many digits there are (`loadOpcode_payload_alias`).
-/

namespace ContractAbi

namespace Text

/-- Digits of the same value are the same up to case. -/
theorem toLower_eq_hexDigit {c : Char} (hex : isHexDigit c = true) :
    c.toLower = hexDigit ((hexValue? c).getD 0) := by
  have same := forall_of_ascii (q := fun c => c.toLower == hexDigit ((hexValue? c).getD 0))
    toNat_lt_of_isHexDigit (by decide) hex
  simpa using same

theorem hexValue?_toLower {c : Char} (hex : isHexDigit c = true) :
    hexValue? c.toLower = hexValue? c := by
  have same := forall_of_ascii (q := fun c => hexValue? c.toLower == hexValue? c)
    toNat_lt_of_isHexDigit (by decide) hex
  simpa using same

theorem hexValue?_getD_lt (c : Char) : (hexValue? c).getD 0 < 16 := by
  cases value : hexValue? c with
  | none => decide
  | some n => exact (hexValue?_eq_some value).1

/-- As many digits with the same number are the same digits up to their case. -/
theorem foldl_hexNumber_inj {xs ys : List Char} {a b : Nat}
    (hexX : ∀ c ∈ xs, isHexDigit c = true) (hexY : ∀ c ∈ ys, isHexDigit c = true)
    (length : xs.length = ys.length)
    (equal : xs.foldl (fun n c => 16 * n + (hexValue? c).getD 0) a =
      ys.foldl (fun n c => 16 * n + (hexValue? c).getD 0) b) : a = b ∧ lower xs = lower ys := by
  induction xs generalizing ys a b with
  | nil =>
    cases List.eq_nil_of_length_eq_zero length.symm
    exact ⟨equal, rfl⟩
  | cons c cs ih =>
    cases ys with
    | nil => cases length
    | cons d ds =>
      obtain ⟨hexC, hexCs⟩ := List.forall_mem_cons.mp hexX
      obtain ⟨hexD, hexDs⟩ := List.forall_mem_cons.mp hexY
      obtain ⟨next, rest⟩ := ih hexCs hexDs (Nat.succ.inj length) equal
      dsimp only at next
      have smallC := hexValue?_getD_lt c
      have smallD := hexValue?_getD_lt d
      have digit : (hexValue? c).getD 0 = (hexValue? d).getD 0 := by omega
      refine ⟨by omega, ?_⟩
      show c.toLower :: lower cs = d.toLower :: lower ds
      rw [rest, toLower_eq_hexDigit hexC, toLower_eq_hexDigit hexD, digit]

/-- The case of digits does not change their number. -/
theorem hexNumber_lower {cs : List Char} (hex : ∀ c ∈ cs, isHexDigit c = true) :
    hexNumber (lower cs) = hexNumber cs := by
  unfold hexNumber lower
  rw [List.foldl_map]
  refine List.foldl_ext _ _ _ ?_
  intro n c among
  rw [hexValue?_toLower (hex c among)]

end Text

namespace Opcode

/-- The bits that the opcode is stored as. -/
def bits (op : Opcode) : List Bool := Bits.ofNat op.bitWidth op.value

@[simp] theorem length_bits (op : Opcode) : op.bits.length = op.bitWidth := Bits.length_ofNat ..

@[simp] theorem toNat_bits (op : Opcode) : Bits.toNat op.bits = op.value :=
  Bits.toNat_ofNat_of_lt op.value_lt

theorem isHexDigit_of_mem_digits (op : Opcode) :
    ∀ c ∈ op.digits.toList, Text.isHexDigit c = true := List.all_eq_true.mp op.isHex

/-- Equal opcodes have the same number. -/
theorem value_eq_of_same {a b : Opcode} (same : a.same b = true) : a.value = b.value := by
  rw [value, ← Text.hexNumber_lower a.isHexDigit_of_mem_digits, beq_iff_eq.mp same,
    Text.hexNumber_lower b.isHexDigit_of_mem_digits]
  rfl

theorem bitWidth_eq_of_length {a b : Opcode} (length : a.digits.length = b.digits.length) :
    a.bitWidth = b.bitWidth := by
  unfold bitWidth
  rw [String.length_toList, String.length_toList, length]

/-- Among opcodes with equally many digits, the bits tell which are the same. -/
theorem bits_eq_iff_same {a b : Opcode} (length : a.digits.length = b.digits.length) :
    a.bits = b.bits ↔ a.same b = true := by
  constructor
  · intro equal
    have value : a.value = b.value := by rw [← toNat_bits a, equal, toNat_bits]
    have digits := Text.foldl_hexNumber_inj a.isHexDigit_of_mem_digits b.isHexDigit_of_mem_digits
      (by rwa [String.length_toList, String.length_toList]) value
    exact beq_iff_eq.mpr digits.2
  · intro same
    rw [bits, bits, bitWidth_eq_of_length length, value_eq_of_same same]

end Opcode

namespace Binding.DataType

/-- What generated code does before it loads any field of a body: it reads the opcode, and fails on
a different one. -/
def loadOpcode (d : DataType) : Load Unit := do
  let opcode ← Load.u64 d.opcode.bitWidth
  if opcode ≠ UInt64.ofNat d.opcode.value then
    throw (.opcodeMismatch d.opcode.value opcode.toNat)

/-- The number of as many bits as an opcode has is the opcode only if the bits are. -/
theorem ofNat_toNat_eq_iff {op : Opcode} {xs : List Bool} (length : xs.length = op.bitWidth) :
    UInt64.ofNat (Bits.toNat xs) = UInt64.ofNat op.value ↔ xs = op.bits := by
  constructor
  · intro equal
    have word : 2 ^ op.bitWidth ≤ 2 ^ 64 := Nat.pow_le_pow_right (by decide) op.bitWidth_le
    have small := Bits.toNat_lt xs
    rw [length] at small
    have value : Bits.toNat xs = op.value := by
      have numbers := congrArg UInt64.toNat equal
      rwa [op.toNat_ofNat_value, UInt64.toNat_ofNat_of_lt' (Nat.lt_of_lt_of_le small word)]
        at numbers
    rw [Opcode.bits, ← value, ← length, Bits.ofNat_toNat]
  · rintro rfl
    rw [Opcode.toNat_bits]

/-- The check passes exactly if the bits of the opcode are next. -/
theorem loadOpcode_eq_ok {d : DataType} {s t : Slice} :
    d.loadOpcode s = .ok () t ↔ d.opcode.bits <+: s.rest ∧ t = s.advance d.opcode.bitWidth 0 := by
  -- The comparison reads nothing, so that the slice is the one behind the number.
  have check {found : UInt64} {r : Slice} :
      (if found ≠ UInt64.ofNat d.opcode.value then
        throw (.opcodeMismatch d.opcode.value found.toNat) else pure () : Load Unit) r = .ok () t ↔
          found = UInt64.ofNat d.opcode.value ∧ t = r := by
    by_cases same : found = UInt64.ofNat d.opcode.value
    · rw [if_neg (not_not_intro same)]
      change EStateM.Result.ok () r = _ ↔ _
      simp [same, eq_comm]
    · rw [if_pos same]
      change EStateM.Result.error _ r = _ ↔ _
      simp [same]
  unfold loadOpcode
  simp only [bind_eq_ok, Load.u64_eq_ok_iff d.opcode.bitWidth_le, check]
  rw [Slice.bitsLeft_eq]
  constructor
  · rintro ⟨_, _, ⟨room, rfl, rfl⟩, same, rfl⟩
    have first := (ofNat_toNat_eq_iff (List.length_take_of_le room)).mp same
    exact ⟨first ▸ List.take_prefix .., rfl⟩
  · rintro ⟨next, rfl⟩
    have first : s.rest.take d.opcode.bitWidth = d.opcode.bits := by
      rw [← d.opcode.length_bits]
      exact (List.prefix_iff_eq_take.mp next).symm
    refine ⟨_, _, ⟨?_, rfl, rfl⟩, ?_, rfl⟩
    · rw [← d.opcode.length_bits]
      exact next.length_le
    · rw [first, Opcode.toNat_bits]

end Binding.DataType

namespace Code

open Binding (DataType)

/-- The code of a data type has the opcode as a constant, and its load begins with the check. -/
structure PrintsCheck (d : DataType) : Prop where
  constant : .text ("pub const OPCODE: u64 = 0x" ++ Text.lowerCase d.opcode.digits ++ ";") ∈
    dataTypeCode d
  check : .text ("let opcode = slice.load_u64(" ++ toString d.opcode.bitWidth ++ ")?;") ::
    block "if opcode != Self::OPCODE"
      [.text ("return Err(CellError::OpcodeMismatch " ++
        "\x7b expected: Self::OPCODE, found: opcode \x7d);")] "" <:+: loadFunction d

/-- The check of the opcode that is printed for a data type reads its width and compares its value.
-/
theorem printsCheck (d : DataType) : PrintsCheck d := by
  constructor
  · refine List.mem_append_right _ ?_
    refine (infix_block ..).subset ?_
    exact List.mem_cons_self
  · refine List.IsInfix.trans ?_ (List.suffix_cons ..).isInfix
    refine List.IsInfix.trans ?_ (infix_block ..)
    exact (List.prefix_append ..).isInfix

end Code

/-- What begins `ys ++ zs` is a part of `ys`, or all of `ys` and a part of `zs`. -/
theorem prefix_append_iff {α : Type} {xs ys zs : List α} :
    xs <+: ys ++ zs ↔ xs <+: ys ∨ ∃ more, xs = ys ++ more ∧ more <+: zs := by
  constructor
  · intro start
    obtain within | ⟨more, rfl⟩ :=
      List.prefix_or_prefix_of_prefix start (List.prefix_append ys zs)
    · exact .inl within
    · exact .inr ⟨more, rfl, (List.prefix_append_right_inj ys).mp start⟩
  · rintro (within | ⟨more, rfl, next⟩)
    · exact within.trans (List.prefix_append ..)
    · exact (List.prefix_append_right_inj ys).mpr next

namespace Contract

open Binding (DataType Send)

variable {contract : Contract} {message : String} {s : Send} {args : List WireValue} {cell : Cell}

/-- A payload is the opcode of its message and what the fields have appended. -/
theorem exists_append_of_payload (sent : contract.sendOf message = .ok s)
    (built : contract.payload message args = .ok cell) :
    ∃ more, cell.bits = s.body.opcode.bits ++ more := by
  rw [payload, sent] at built
  obtain ⟨-, final, stored, rfl⟩ := Send.payload_stored.mp built
  obtain ⟨bits, refs, grows⟩ := Binding.exists_grows_of_storeFields stored
  exact ⟨bits, grows.bits_eq⟩

/-- A payload passes the opcode check that is printed for a data type exactly if the bits of the
opcode of the type are the first bits of the opcode of the message, or are these bits followed by
the first bits of the fields. If the two opcodes have equally many digits, they have to be the
same. -/
theorem loadOpcode_payload_eq_ok_iff (d : DataType) (sent : contract.sendOf message = .ok s)
    (built : contract.payload message args = .ok cell) :
    Code.PrintsCheck d ∧
      ((∃ t, d.loadOpcode cell.slice = .ok () t) ↔ d.opcode.bits <+: s.body.opcode.bits ∨
        ∃ more, d.opcode.bits = s.body.opcode.bits ++ more ∧
          more <+: cell.bits.drop s.body.opcode.bitWidth) ∧
      (d.opcode.digits.length = s.body.opcode.digits.length →
        ((∃ t, d.loadOpcode cell.slice = .ok () t) ↔ d.opcode.same s.body.opcode = true)) := by
  obtain ⟨behind, whole⟩ := exists_append_of_payload sent built
  have passes : (∃ t, d.loadOpcode cell.slice = .ok () t) ↔ d.opcode.bits <+: cell.bits := by
    simp only [DataType.loadOpcode_eq_ok, exists_and_left, exists_eq, and_true]
    rfl
  refine ⟨Code.printsCheck d, ?_, ?_⟩
  · rw [passes, whole, ← s.body.opcode.length_bits, List.drop_left]
    exact prefix_append_iff
  · -- Of two beginnings of the same bits that are equally long, each is the other.
    intro digits
    have length : d.opcode.bits.length = s.body.opcode.bits.length := by
      rw [Opcode.length_bits, Opcode.length_bits, Opcode.bitWidth_eq_of_length digits]
    rw [passes, whole, ← Opcode.bits_eq_iff_same digits]
    constructor
    · intro start
      exact (List.prefix_of_prefix_length_le start (List.prefix_append ..) length.le).eq_of_length
        length
    · intro equal
      rw [equal]
      exact List.prefix_append ..

/-- A description with four messages of different opcodes. -/
def readings : Document where
  interfaces := [⟨"meter", none, none, [], ["reset", "clear", "read", "report"], []⟩]
  getMethods := []
  messages := [⟨"reset", .parsed ⟨"reset", ⟨"1", by decide, by decide, by decide⟩, [], "Body"⟩⟩,
    ⟨"clear", .parsed ⟨"clear", ⟨"01", by decide, by decide, by decide⟩, [], "Body"⟩⟩,
    ⟨"read", .parsed ⟨"read", ⟨"a1b2c3d4", by decide, by decide, by decide⟩, [], "Body"⟩⟩,
    ⟨"report", .parsed ⟨"report", ⟨"a1b2c3d4e5", by decide, by decide, by decide⟩,
      [⟨none, "total", "uint64"⟩], "Body"⟩⟩]

def reset : Send where
  message := "reset"
  ident := "send_reset"
  probeIdent := "probe_send_reset"
  body := ⟨"Reset", "reset", ⟨"1", by decide, by decide, by decide⟩, [], "Body"⟩

def clear : Send where
  message := "clear"
  ident := "send_clear"
  probeIdent := "probe_send_clear"
  body := ⟨"Clear", "clear", ⟨"01", by decide, by decide, by decide⟩, [], "Body"⟩

def read : Send where
  message := "read"
  ident := "send_read"
  probeIdent := "probe_send_read"
  body := ⟨"Read", "read", ⟨"a1b2c3d4", by decide, by decide, by decide⟩, [], "Body"⟩

def report : Send where
  message := "report"
  ident := "send_report"
  probeIdent := "probe_send_report"
  body := ⟨"Report", "report", ⟨"a1b2c3d4e5", by decide, by decide, by decide⟩,
    [⟨"total", "total", .integer 64 false⟩], "Body"⟩

/-- A contract with the interface of the description. -/
def meter : Contract where
  type := ⟨"meter", "Meter", "meter", none, ["meter"], [], [reset, clear, read, report], []⟩
  address := .zero

/-- A message whose opcode begins with that of another one passes its check. -/
theorem loadOpcode_payload_eq_ok_iff_report :
    meter.sendOf "report" = .ok report ∧
      ∃ cell, meter.payload "report" [.int 9] = .ok cell ∧
        ((∃ t, reset.body.loadOpcode cell.slice = .ok () t) ↔
          reset.body.opcode.bits <+: report.body.opcode.bits ∨
            ∃ more, reset.body.opcode.bits = report.body.opcode.bits ++ more ∧
              more <+: cell.bits.drop report.body.opcode.bitWidth) := by
  have sent : meter.sendOf "report" = .ok report := by rfl
  have built : meter.payload "report" [.int 9] =
      .ok ⟨Bits.ofNat 40 0xa1b2c3d4e5 ++ Bits.ofNat 64 9, []⟩ := by rfl
  exact ⟨sent, _, built, (loadOpcode_payload_eq_ok_iff reset.body sent built).2.1⟩

/-- Different opcodes whose payloads pass the check of the other one: `1` and `01` are the same
number, and the bits of `a1b2c3d4e5` begin with those of `a1b2c3d4`. -/
theorem loadOpcode_payload_alias :
    meter.type ∈ (Binding.Model.ofDocument readings).classes ∧
      (∃ cell t, meter.payload "clear" [] = .ok cell ∧
        reset.body.opcode.same clear.body.opcode = false ∧
        reset.body.loadOpcode cell.slice = .ok () t) ∧
      ∃ cell t, meter.payload "report" [.int 9] = .ok cell ∧
        read.body.opcode.same report.body.opcode = false ∧
        read.body.loadOpcode cell.slice = .ok () t := by
  have ofModel : meter.type ∈ (Binding.Model.ofDocument readings).classes := by decide +kernel
  have cleared : meter.payload "clear" [] = .ok ⟨Bits.ofNat 32 1, []⟩ := by rfl
  have reported : meter.payload "report" [.int 9] =
      .ok ⟨Bits.ofNat 40 0xa1b2c3d4e5 ++ Bits.ofNat 64 9, []⟩ := by rfl
  exact ⟨ofModel, ⟨_, _, cleared, by decide, rfl⟩, _, _, reported, by decide, rfl⟩

end Contract

end ContractAbi
