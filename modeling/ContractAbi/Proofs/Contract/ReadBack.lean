import ContractAbi.Code.Messages
import ContractAbi.Proofs.Cell.RoundTrip
import ContractAbi.Proofs.Contract.Payload

/-!
# Generated code reads what a send has written

The type that is generated for the body of a message loads the opcode and then every field, each by
the one load that its store operation has (`StoreOp.loadKind`), while a send stores arguments of
several kinds by the same operation. `payload_readsBack` says that the loads give what the arguments
stand for, whatever kinds they are of. There is one exception: a send also stores that there is no
address, and the load of an address that has to be there refuses it.
-/

namespace ContractAbi

open Binding (DataType Field Model Send storeFields storeFields_cons_eq_ok afterOpcode)
open Code (Line)

namespace PartKind

/-- The load for the kind, as generated code calls it. -/
def call : PartKind → String
  | bit => "slice.load_bit()"
  | u64 width => "slice.load_u64(" ++ toString width ++ ")"
  | i64 width => "slice.load_i64(" ++ toString width ++ ")"
  | uint width => "slice.load_uint(" ++ toString width ++ ")"
  | int width => "slice.load_int(" ++ toString width ++ ")"
  | varUInt bound => "slice.load_var_uint(" ++ toString bound ++ ")"
  | address => "slice.load_address()"
  | standardAddress => "slice.load_std_address()"
  | ref => "slice.load_ref()"
  | maybeRef => "slice.load_maybe_ref()"
  | text => "slice.load_text()"

/-- The wire form of what is loaded. -/
def wire : (kind : PartKind) → kind.Value → WireValue
  | bit => toWire (α := Bool)
  | u64 _ => toWire (α := UInt64)
  | i64 _ => toWire (α := Int64)
  | uint _ => toWire (α := Nat)
  | int _ => toWire (α := Int)
  | varUInt _ => toWire (α := Nat)
  | address => toWire (α := Option Address)
  | standardAddress => toWire (α := Address)
  | ref => toWire (α := Cell)
  | maybeRef => toWire (α := Option Cell)
  | text => toWire (α := String)

end PartKind

namespace StoreOp

/-- The load of what the operation has stored. Up to the width of a machine word an integer is
loaded as one. -/
def loadKind : StoreOp → PartKind
  | .uint width => if width ≤ Category.nativeBits then .u64 width else .uint width
  | .int width => if width ≤ Category.nativeBits then .i64 width else .int width
  | .bit => .bit
  | .address => .standardAddress
  | .maybeRef => .maybeRef
  | .varUInt bound => .varUInt bound
  | .text => .text
  | .ref => .ref

/-- What an argument stands for: the text of an address for the address, and a slice for its
cell. -/
def standsFor : StoreOp → WireValue → WireValue
  | .address, .text s =>
    match Address.parse s with
    | .ok a => .address a
    | .error _ => .text s
  | _, .slice c => .cell c
  | _, arg => arg

/-- No address is given where one is stored. -/
def LacksAddress (op : StoreOp) (arg : WireValue) : Prop := op = .address ∧ arg = .null

/-- The part that the operation stores for an argument: what its load takes for the argument, or
the mark that there is no address. -/
inductive Stores (op : StoreOp) (arg : WireValue) : Part → Prop where
  | value {value : op.loadKind.Value} (present : ¬ op.LacksAddress arg)
      (wire : op.loadKind.wire value = op.standsFor arg) : Stores op arg ⟨op.loadKind, value⟩
  | noAddress (absent : op.LacksAddress arg) : Stores op arg ⟨.address, (none : Option Address)⟩

variable {op : StoreOp} {arg : WireValue} {store : Store} {b c : Builder}

theorem loadKind_uint_of_le {width : Nat} (narrow : width ≤ Category.nativeBits) :
    (uint width).loadKind = .u64 width := if_pos narrow

theorem loadKind_uint_of_lt {width : Nat} (wide : Category.nativeBits < width) :
    (uint width).loadKind = .uint width := if_neg (Nat.not_le.mpr wide)

theorem loadKind_int_of_le {width : Nat} (narrow : width ≤ Category.nativeBits) :
    (int width).loadKind = .i64 width := if_pos narrow

theorem loadKind_int_of_lt {width : Nat} (wide : Category.nativeBits < width) :
    (int width).loadKind = .int width := if_neg (Nat.not_le.mpr wide)

theorem eq_text_of_loadKind (text : op.loadKind = .text) : op = .text := by
  cases op with
  | uint width | int width =>
    simp only [loadKind] at text
    split at text <;> cases text
  | text => rfl
  | _ => cases text

/-- What is stored as a natural number is stored as a machine word if that is how it is loaded. -/
theorem exists_value_uint {n width : Nat} (stored : Store.uint n width b = .ok () c) :
    ∃ value : (uint width).loadKind.Value,
      (uint width).loadKind.store value b = .ok () c ∧
        (uint width).loadKind.wire value = .int n := by
  by_cases narrow : width ≤ Category.nativeBits
  · rw [loadKind_uint_of_le narrow]
    obtain ⟨small, grows⟩ := Store.uint_eq_ok.mp stored
    have word : 2 ^ width ≤ 2 ^ 64 := Nat.pow_le_pow_right (by decide) narrow
    have same : (UInt64.ofNat n).toNat = n :=
      UInt64.toNat_ofNat_of_lt' (Nat.lt_of_lt_of_le small word)
    refine ⟨UInt64.ofNat n, Store.u64_eq_ok.mpr ?_, ?_⟩
    · rw [same]
      exact ⟨narrow, small, grows⟩
    · show WireValue.int (UInt64.ofNat n).toNat = _
      rw [same]
  · rw [loadKind_uint_of_lt (Nat.lt_of_not_le narrow)]
    exact ⟨n, stored, rfl⟩

/-- Numbers that fit a width of at most 64 bits are the same as machine integers. -/
theorem toInt_ofInt_of_fits {v : Int} {width : Nat} (narrow : width ≤ 64)
    (fits : Store.fitsSigned v width) : (Int64.ofInt v).toInt = v := by
  have word : 2 ^ (width - 1) ≤ 2 ^ 63 := Nat.pow_le_pow_right (by decide) (by omega)
  obtain ⟨lower, upper⟩ := fits
  rw [Bits.limit_eq] at lower upper
  apply Int64.toInt_ofInt_of_le <;> omega

/-- The same for integers. -/
theorem exists_value_int {v : Int} {width : Nat} (stored : Store.int v width b = .ok () c) :
    ∃ value : (int width).loadKind.Value,
      (int width).loadKind.store value b = .ok () c ∧ (int width).loadKind.wire value = .int v := by
  by_cases narrow : width ≤ Category.nativeBits
  · rw [loadKind_int_of_le narrow]
    obtain ⟨positive, fits, grows⟩ := Store.int_eq_ok.mp stored
    have same := toInt_ofInt_of_fits narrow fits
    refine ⟨Int64.ofInt v, Store.i64_eq_ok.mpr ?_, ?_⟩
    · rw [same]
      exact ⟨positive, narrow, fits, grows⟩
    · show WireValue.int (Int64.ofInt v).toInt = _
      rw [same]
  · rw [loadKind_int_of_lt (Nat.lt_of_not_le narrow)]
    exact ⟨v, stored, rfl⟩

/-- Each argument but an absent address is stored as what its load gives back. -/
theorem exists_value (found : op.store? arg = some store) (stored : store b = .ok () c)
    (present : ¬ op.LacksAddress arg) : ∃ value : op.loadKind.Value,
      op.loadKind.store value b = .ok () c ∧ op.loadKind.wire value = op.standsFor arg := by
  -- By the kinds of argument that the field takes; an absent address is the one without a value.
  cases takes_of_store? found with
  | uint width v =>
    simp only [store?, Option.ite_none_right_eq_some] at found
    obtain ⟨positive, ⟨⟩⟩ := found
    obtain ⟨value, kept, wire⟩ := exists_value_uint stored
    rw [Int.toNat_of_nonneg positive] at wire
    exact ⟨value, kept, wire⟩
  | int width v =>
    cases found
    exact exists_value_int stored
  | varUInt bound v =>
    simp only [store?, Option.ite_none_right_eq_some] at found
    obtain ⟨positive, ⟨⟩⟩ := found
    refine ⟨v.toNat, stored, ?_⟩
    show WireValue.int v.toNat = _
    rw [Int.toNat_of_nonneg positive]
    rfl
  | bit x =>
    cases found
    exact ⟨x, stored, rfl⟩
  | address a =>
    cases found
    exact ⟨a, stored, rfl⟩
  | @addressText s a parsed =>
    simp only [store?, parsed] at found
    cases found
    refine ⟨a, stored, ?_⟩
    simp only [standsFor, parsed]
    rfl
  | noAddress => exact absurd ⟨rfl, rfl⟩ present
  | maybeCell r | maybeSlice r =>
    cases found
    exact ⟨some r, stored, rfl⟩
  | noCell =>
    cases found
    exact ⟨none, stored, rfl⟩
  | cell r | slice r =>
    cases found
    exact ⟨r, stored, rfl⟩
  | text s =>
    cases found
    exact ⟨s, stored, rfl⟩

theorem exists_part (found : op.store? arg = some store) (stored : store b = .ok () c) :
    ∃ p, op.Stores arg p ∧ p.store b = .ok () c := by
  by_cases absent : op.LacksAddress arg
  · obtain ⟨rfl, rfl⟩ := absent
    cases found
    exact ⟨_, .noAddress ⟨rfl, rfl⟩, stored⟩
  · obtain ⟨value, kept, wire⟩ := exists_value found stored absent
    exact ⟨_, .value absent wire, kept⟩

theorem Stores.eq_text {p : Part} (stores : op.Stores arg p) (text : p.kind = .text) :
    op = .text := by
  cases stores with
  | value => exact eq_text_of_loadKind text
  | noAddress => cases text

end StoreOp

namespace Load

/-- The load of an address that has to be there refuses the mark that there is none, and does not
use it up. -/
theorem standardAddress_of_none {s t : Slice} (absent : address s = .ok none t) :
    standardAddress s = .error .invalidAddress s := by
  refine atomic_eq_error (t := t) ?_
  exact bind_eq_error.mpr (.inr ⟨none, t, absent, rfl⟩)

end Load

/-- The loads of fields, one after the other, give what the arguments stand for, up to an absent
address. That one is refused, and nothing behind it is read. -/
inductive ReadsFields : List (Field × WireValue) → Slice → Prop where
  | done {s : Slice} : ReadsFields [] s
  | field {f : Field} {arg : WireValue} {pairs : List (Field × WireValue)} {s t : Slice}
      {value : f.storeOp.loadKind.Value} (present : ¬ f.storeOp.LacksAddress arg)
      (loaded : f.storeOp.loadKind.load s = .ok value t)
      (wire : f.storeOp.loadKind.wire value = f.storeOp.standsFor arg)
      (behind : ReadsFields pairs t) : ReadsFields ((f, arg) :: pairs) s
  | refused {f : Field} {arg : WireValue} {pairs : List (Field × WireValue)} {s : Slice}
      (absent : f.storeOp.LacksAddress arg)
      (refused : f.storeOp.loadKind.load s = .error .invalidAddress s) :
      ReadsFields ((f, arg) :: pairs) s

/-- A cell is read as the body of a message: the opcode with its width, then the fields. -/
structure ReadsBody (d : DataType) (args : List WireValue) (cell : Cell) : Prop where
  arity : args.length = d.fields.length
  value : (UInt64.ofNat d.opcode.value).toNat = d.opcode.value
  opcode : Load.u64 d.opcode.bitWidth cell.slice =
    .ok (UInt64.ofNat d.opcode.value) (cell.slice.advance d.opcode.bitWidth 0)
  fields : ReadsFields (d.fields.zip args) (cell.slice.advance d.opcode.bitWidth 0)

namespace Binding

variable {b final : Builder} {message : String} {pairs : List (Field × WireValue)}

/-- Stored fields stand behind what the builder had. -/
theorem exists_grows_of_storeFields (stored : storeFields message pairs b = .ok final) :
    ∃ bits refs, b.Grows bits refs final := by
  induction pairs generalizing b with
  | nil =>
    cases stored
    exact ⟨[], [], Builder.grows_nil_iff.mpr rfl⟩
  | cons pair pairs ih =>
    obtain ⟨c, first, others⟩ := storeFields_cons_eq_ok.mp stored
    obtain ⟨store, found, kept⟩ := Field.store_eq_ok_iff.mp first
    obtain ⟨p, -, part⟩ := StoreOp.exists_part found kept
    obtain ⟨xs, cs, here⟩ := p.exists_grows part
    obtain ⟨ys, ds, behind⟩ := ih others
    exact ⟨_, _, here.trans behind⟩

/-- Wherever the fields start in a cell, they are read from there. -/
theorem readsFields_sliceFrom (textLast : ∀ pair ∈ pairs.dropLast, pair.1.storeOp ≠ .text)
    (stored : storeFields message pairs b = .ok final) :
    ReadsFields pairs (final.sliceFrom b) := by
  induction pairs generalizing b with
  | nil => exact .done
  | cons pair pairs ih =>
    obtain ⟨f, arg⟩ := pair
    obtain ⟨c, first, others⟩ := storeFields_cons_eq_ok.mp stored
    obtain ⟨store, found, kept⟩ := Field.store_eq_ok_iff.mp first
    obtain ⟨p, stores, part⟩ := StoreOp.exists_part found kept
    obtain ⟨bits, refs, grows⟩ := exists_grows_of_storeFields others
    -- Only the last field may be a text, and then nothing is stored behind it.
    have last : p.kind = .text → final = c := by
      intro text
      cases pairs with
      | nil => exact (Except.ok.inj others).symm
      | cons other pairs =>
        exact absurd (stores.eq_text text) (textLast (f, arg) List.mem_cons_self)
    have behind : ∀ pair ∈ pairs.dropLast, pair.1.storeOp ≠ .text := by
      intro pair among
      exact textLast pair (mem_dropLast_cons among)
    have loaded := p.load_eq part grows last
    cases stores with
    | value present wire => exact .field present loaded wire (ih behind others)
    | noAddress absent =>
      refine .refused absent ?_
      rw [absent.1]
      exact Load.standardAddress_of_none loaded

theorem sliceFrom_afterOpcode (op : Opcode) :
    final.sliceFrom (afterOpcode op) = final.build.slice.advance op.bitWidth 0 := by
  have moved := (grows_afterOpcode op).advance_sliceFrom final
  rw [Bits.length_ofNat] at moved
  exact moved.symm

/-- The opcode is stored in front of everything else, and is read first. -/
theorem load_opcode {op : Opcode} {bits : List Bool} {refs : List Cell}
    (behind : (afterOpcode op).Grows bits refs final) :
    Load.u64 op.bitWidth (final.sliceFrom Builder.empty) =
      .ok (UInt64.ofNat op.value) (final.sliceFrom (afterOpcode op)) := by
  let p : Part := ⟨.u64 op.bitWidth, UInt64.ofNat op.value⟩
  have stored : p.store Builder.empty = .ok () (afterOpcode op) := store_opcode op
  exact p.load_eq stored behind nofun

/-- The payload of a send is read as the body that the send has stored. -/
theorem Send.readsBody {s : Send} {args : List WireValue} {cell : Cell}
    (textLast : ∀ f ∈ s.body.fields.dropLast, f.storeOp ≠ .text)
    (built : s.payload args = .ok cell) : ReadsBody s.body args cell := by
  obtain ⟨arity, final, stored, rfl⟩ := Send.payload_stored.mp built
  have names : (s.body.fields.zip args).map Prod.fst = s.body.fields :=
    List.map_fst_zip (by omega)
  have textLast : ∀ pair ∈ (s.body.fields.zip args).dropLast, pair.1.storeOp ≠ .text := by
    intro pair among
    apply textLast
    rw [← names, ← List.map_dropLast]
    exact List.mem_map_of_mem among
  have fields := readsFields_sliceFrom textLast stored
  obtain ⟨bits, refs, grows⟩ := exists_grows_of_storeFields stored
  have opcode := load_opcode grows
  rw [sliceFrom_afterOpcode] at fields opcode
  exact ⟨arity, s.body.opcode.toNat_ofNat_value, opcode, fields⟩

end Binding

namespace Code

/-- The code has the type of a body with its function that loads one, and in it the loads of the
opcode and of all fields, in order. -/
structure PrintsLoads (code : List Line) (d : DataType) : Prop where
  type : dataTypeCode d <:+: code
  function : loadFunction d <:+: dataTypeCode d
  opcode : .text ("let opcode = slice.load_u64(" ++ toString d.opcode.bitWidth ++ ")?;") ∈
    loadFunction d
  fields : (texts (d.fields.map fun f => f.ident ++ ": " ++ f.storeOp.loadKind.call ++ "?,")) <:+:
    loadFunction d

variable {d : DataType} {types : List DataType}

theorem loadCall_eq (f : Field) : loadCall f = f.storeOp.loadKind.call := by
  unfold loadCall StoreOp.loadKind
  cases f.storeOp with
  | uint width | int width =>
    dsimp only
    split <;> rfl
  | _ => rfl

theorem infix_block (header : String) (body : List Line) (suffix : String) :
    body <:+: block header body suffix := ⟨[_], [_], rfl⟩

theorem infix_spaced {items : List (List Line)} {item : List Line} (member : item ∈ items) :
    item <:+: spaced items :=
  (List.suffix_cons blank item).isInfix.trans
    (List.infix_of_mem_flatten (List.mem_map_of_mem member))

theorem infix_dataTypeCode : loadFunction d <:+: dataTypeCode d := by
  have listed : loadFunction d <:+: spaced [storeFunction d, toCellFunction, loadFunction d,
      fromCellFunction] := infix_spaced (by simp)
  exact (listed.trans (List.suffix_cons ..).isInfix).trans
    ((infix_block ..).trans (List.suffix_append ..).isInfix)

/-- Each data type's loads are printed in the code of the messages. -/
theorem printsLoads_messagesCode (member : d ∈ types) : PrintsLoads (messagesCode types) d := by
  constructor
  · have listed : dataTypeCode d <:+: spaced (types.map dataTypeCode) :=
      infix_spaced (List.mem_map_of_mem member)
    exact listed.trans (List.suffix_append ..).isInfix
  · exact infix_dataTypeCode
  · exact List.mem_cons_of_mem _ (List.mem_cons_of_mem _ List.mem_cons_self)
  · simp only [← loadCall_eq]
    unfold loadFunction
    by_cases empty : d.fields = []
    · rw [empty]
      exact List.nil_infix
    · rw [if_neg (by simpa using empty)]
      refine List.IsInfix.trans ?_ (List.suffix_cons ..).isInfix
      refine List.IsInfix.trans ?_ (infix_block ..)
      refine List.IsInfix.trans ?_ (List.suffix_append ..).isInfix
      exact infix_block ..

end Code

namespace Contract

/-- The payload of a message of a model is read back by the code that is generated for the body of
the message: the opcode with its width, and every field by the load that is printed for it. An
absent address ends the reading, for the load of an address that has to be there refuses it. -/
theorem payload_readsBack {doc : Document} {contract : Contract} {s : Send}
    {args : List WireValue} {cell : Cell}
    (ofModel : contract.type ∈ (Model.ofDocument doc).classes) (ofClass : s ∈ contract.type.sends)
    (textLast : ∀ f ∈ s.body.fields.dropLast, f.storeOp ≠ .text)
    (built : contract.payload s.message args = .ok cell) :
    Code.PrintsLoads (Code.messagesCode (Model.ofDocument doc).dataTypes) s.body ∧
      ReadsBody s.body args cell := by
  obtain ⟨d, -, listed, -⟩ := Model.exists_definition_of_mem ofModel ofClass
  rw [payload_of_mem ofModel ofClass] at built
  exact ⟨Code.printsLoads_messagesCode listed, Send.readsBody textLast built⟩

/-- A description with two messages. One stores fields by seven operations, with a text behind all
others, and the other one an address alone. -/
def deposits : Document where
  interfaces := [⟨"vault", none, none, [], ["deposit", "hand_over"], []⟩]
  getMethods := []
  messages := [⟨"deposit", .parsed ⟨"deposit", ⟨"2a", by decide, by decide, by decide⟩,
      [⟨none, "amount", "uint64"⟩, ⟨none, "change", "int8"⟩, ⟨none, "total", "uint128"⟩,
        ⟨none, "owner", "MsgAddress"⟩, ⟨none, "proof", "^Cell"⟩, ⟨none, "extra", "(Maybe ^Cell)"⟩,
        ⟨none, "fee", "(VarUInteger 16)"⟩, ⟨none, "note", "text"⟩], "InternalMsgBody"⟩⟩,
    ⟨"hand_over", .parsed ⟨"hand_over", ⟨"2c", by decide, by decide, by decide⟩,
      [⟨none, "owner", "MsgAddress"⟩], "InternalMsgBody"⟩⟩]

def deposit : Send where
  message := "deposit"
  ident := "send_deposit"
  probeIdent := "probe_send_deposit"
  body := ⟨"Deposit", "deposit", ⟨"2a", by decide, by decide, by decide⟩,
    [⟨"amount", "amount", .integer 64 false⟩, ⟨"change", "change", .integer 8 true⟩,
      ⟨"total", "total", .integer 128 false⟩, ⟨"owner", "owner", .address⟩,
      ⟨"proof", "proof", .cell⟩, ⟨"extra", "extra", .optional .cell⟩, ⟨"fee", "fee", .varUInt 16⟩,
      ⟨"note", "note", .text⟩], "InternalMsgBody"⟩

def handOver : Send where
  message := "hand_over"
  ident := "send_hand_over"
  probeIdent := "probe_send_hand_over"
  body := ⟨"HandOver", "hand_over", ⟨"2c", by decide, by decide, by decide⟩,
    [⟨"owner", "owner", .address⟩], "InternalMsgBody"⟩

/-- A contract with the interface of the description. -/
def vault : Contract where
  type := ⟨"vault", "Vault", "vault", none, ["vault"], [], [deposit, handOver], []⟩
  address := .zero

/-- Arguments for the first message, the owner as a text and the proof as a slice. -/
def depositArgs : List WireValue :=
  [.int 9, .int (-3), .int (2 ^ 100), .text Address.zero.raw, .slice .empty, .null, .int 1000000,
    .text "A note behind all other fields."]

/-- A message with eight fields, its text last. -/
theorem payload_readsBack_deposit :
    vault.type ∈ (Model.ofDocument deposits).classes ∧ deposit ∈ vault.type.sends ∧
      (∀ f ∈ deposit.body.fields.dropLast, f.storeOp ≠ .text) ∧
      ∃ cell, vault.payload "deposit" depositArgs = .ok cell ∧
        Code.PrintsLoads (Code.messagesCode (Model.ofDocument deposits).dataTypes) deposit.body ∧
        ReadsBody deposit.body depositArgs cell := by
  have ofModel : vault.type ∈ (Model.ofDocument deposits).classes := by decide +kernel
  have ofClass : deposit ∈ vault.type.sends := List.mem_cons_self
  have textLast : ∀ f ∈ deposit.body.fields.dropLast, f.storeOp ≠ .text := by decide
  have succeeds : (match vault.payload "deposit" depositArgs with
    | .ok _ => true
    | .error _ => false) = true := by decide +kernel
  cases built : vault.payload "deposit" depositArgs with
  | ok cell => exact ⟨ofModel, ofClass, textLast, cell, rfl,
      payload_readsBack ofModel ofClass textLast built⟩
  | error e =>
    rw [built] at succeeds
    contradiction

/-- Where no address is given for a field, the payload is built and its opcode is read, but the load
that is printed for the field fails. -/
theorem payload_not_readsBack :
    vault.type ∈ (Model.ofDocument deposits).classes ∧ handOver ∈ vault.type.sends ∧
      (∀ f ∈ handOver.body.fields, f.storeOp ≠ .text) ∧
      ∃ cell t, vault.payload "hand_over" [.null] = .ok cell ∧
        Load.u64 handOver.body.opcode.bitWidth cell.slice = .ok 0x2c t ∧
        handOver.body.fields.map Code.loadCall = ["slice.load_std_address()"] ∧
        Load.standardAddress t = .error .invalidAddress t := by
  have ofModel : vault.type ∈ (Model.ofDocument deposits).classes := by decide +kernel
  have ofClass : handOver ∈ vault.type.sends := by decide
  have noText : ∀ f ∈ handOver.body.fields, f.storeOp ≠ .text := by decide
  have built : vault.payload "hand_over" [.null] =
      .ok ⟨Bits.ofNat 32 0x2c ++ [false, false], []⟩ := by rfl
  exact ⟨ofModel, ofClass, noText, _, _, built, rfl, rfl, rfl⟩

end Contract

end ContractAbi
