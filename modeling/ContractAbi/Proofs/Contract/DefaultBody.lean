import ContractAbi.Proofs.Cell.Overflow
import ContractAbi.Proofs.Contract.Payload
import ContractAbi.Proofs.Contract.Query
import ContractAbi.Proofs.Session.Calls

/-!
# The message body that a probe makes up

Every store operation takes the value that is made up for its category, and zero is in the range of
every width and of every bound above zero. What is left to fail is the room in the cell: field by
field (`Field.stored_default`) and so for the whole body (`storeFields_default`). A `VarUInteger` of
bound zero has no values at all, so that its zero is refused for the width
(`Contract.payload_defaultArgs`).
-/

namespace ContractAbi

open Binding (Field)

namespace StoreOp

variable {op : StoreOp} {v : WireValue}

/-- A value that an operation takes, of its range, is stored if there is room for it. Texts are left
out, but for the empty one: they take the room that there is. -/
theorem exists_fills (takes : op.Takes v) (range : op.InRange v)
    (plain : op.IsPlain ∨ v = .text "") : ∃ store, op.store? v = some store ∧
      ∀ b, Store.Fills b (op.encodedBits v) (op.encodedRefs v) (store b) := by
  cases takes with
  | uint width v =>
    obtain ⟨positive, below⟩ := range
    exact ⟨_, if_pos positive, fun b => Store.uint_fills b ((Int.toNat_lt positive).mpr below)⟩
  | int width v =>
    obtain ⟨positive, fits⟩ := range
    exact ⟨_, rfl, fun b => Store.int_fills b positive fits⟩
  | varUInt bound v =>
    obtain ⟨positive, -, below⟩ := range
    have narrow := headerBits_le (plain.resolve_right (by simp))
    exact ⟨_, if_pos positive, fun b => Store.varUInt_fills b below narrow⟩
  | bit x => exact ⟨_, rfl, fun b => Store.bits_fills b [x]⟩
  | address a => exact ⟨_, rfl, fun b => Store.address_fills b a⟩
  | @addressText s a parsed =>
    refine ⟨Store.address (some a), ?_, fun b => ?_⟩
    · rw [store?, parsed]
    · rw [encodedBits, parsed]
      exact Store.address_fills b a
  | noAddress => exact ⟨_, rfl, Store.noAddress_fills⟩
  | maybeCell r | maybeSlice r => exact ⟨_, rfl, fun b => Store.maybeRef_fills b r⟩
  | noCell => exact ⟨_, rfl, Store.noCell_fills⟩
  | cell r | slice r => exact ⟨_, rfl, fun b => Store.ref_fills b r⟩
  | text s =>
    cases plain.resolve_left id
    exact ⟨_, rfl, Store.emptyText_fills⟩

end StoreOp

namespace Category

/-- The value that a probe makes up for a field. -/
def madeUp (c : Category) : WireValue := (c.defaultValue .messageField).wireValue

/-- The value that is made up for a category is one that its field takes. -/
theorem takes_madeUp (c : Category) : c.storeOp.Takes c.madeUp := by
  cases c with
  | integer bits signed =>
    cases signed with
    | false => exact .uint bits 0
    | true => exact .int bits 0
  | boolean => exact .bit _
  | address => exact .address _
  | text => exact .text _
  | optional => exact .noCell
  | varUInt bound => exact .varUInt bound 0
  | _ => exact .cell _

/-- It is in range, unless the category is that of numbers without bytes. -/
theorem Bounded.inRange_madeUp {c : Category} (bounded : c.Bounded) (bytes : c ≠ .varUInt 0) :
    c.storeOp.InRange c.madeUp := by
  cases c with
  | integer bits signed =>
    cases signed with
    | false =>
      have positive : 0 < 2 ^ bits := Nat.two_pow_pos bits
      exact ⟨Int.le_refl 0, by exact_mod_cast positive⟩
    | true =>
      have positive : 0 < 2 ^ (bits - 1) := Nat.two_pow_pos (bits - 1)
      have wide : bits ≠ 0 := Nat.ne_zero_of_lt bounded.1
      exact ⟨wide, by omega, by exact_mod_cast positive⟩
  | varUInt bound =>
    have positive : bound ≠ 0 := fun zero => bytes (congrArg Category.varUInt zero)
    exact ⟨Int.le_refl 0, positive, Nat.pos_of_ne_zero positive⟩
  | _ => trivial

theorem Bounded.isPlain_or_madeUp {c : Category} (bounded : c.Bounded) :
    c.storeOp.IsPlain ∨ c.madeUp = .text "" := by
  by_cases text : c.storeOp = .text
  · cases c with
    | text => exact .inr rfl
    | integer bits signed => cases signed <;> cases text
    | _ => cases text
  · exact .inl (bounded.isPlain text)

end Category

namespace Binding

/-- What comes of storing values in a row, where one may be for a number without bytes: they are
appended, or there is no room for them, or it is refused. -/
inductive Stored (message : String) (b : Builder) (bits : List Bool) (refs : List Cell)
    (noBytes : Prop) : Except BindingError Builder → Prop
  | appended {c : Builder} : b.Grows bits refs c → ¬ noBytes →
      Stored message b bits refs noBytes (.ok c)
  | bitOverflow (requested left : Nat) : b.bitsLeft < bits.length →
      Stored message b bits refs noBytes (.error (.payload message (.bitOverflow requested left)))
  | refOverflow : b.refsLeft < refs.length →
      Stored message b bits refs noBytes (.error (.payload message .refOverflow))
  | refused : noBytes →
      Stored message b bits refs noBytes (.error (.payload message (.invalidWidth 0)))

variable {message : String} {b : Builder}

/-- What is stored behind what has been stored. -/
theorem Stored.bind {bits bits' : List Bool} {refs refs' : List Cell} {noBytes noBytes' : Prop}
    {x : Except BindingError Builder} {k : Builder → Except BindingError Builder}
    (first : Stored message b bits refs noBytes x)
    (rest : ∀ {c}, b.Grows bits refs c → Stored message c bits' refs' noBytes' (k c)) :
    Stored message b (bits ++ bits') (refs ++ refs') (noBytes ∨ noBytes') (x >>= k) := by
  have longer : (bits ++ bits').length = bits.length + bits'.length := List.length_append
  have more : (refs ++ refs').length = refs.length + refs'.length := List.length_append
  cases first with
  | @appended c grows bytes =>
    change Stored message b _ _ _ (k c)
    have left := grows.bitsLeft_eq
    have places := grows.refsLeft_eq
    have behind := rest grows
    generalize k c = result at behind
    cases behind with
    | appended grows' bytes' => exact .appended (grows.trans grows') (by tauto)
    | bitOverflow requested left short => exact .bitOverflow requested left (by omega)
    | refOverflow short => exact .refOverflow (by omega)
    | refused empty => exact .refused (.inr empty)
  | bitOverflow requested left short => exact .bitOverflow requested left (by omega)
  | refOverflow short => exact .refOverflow (by omega)
  | refused empty => exact .refused (.inl empty)

section Outcomes

variable {bits : List Bool} {refs : List Cell} {noBytes : Prop} {x : Except BindingError Builder}

/-- When a store of these bits and references succeeds, and with which builder. -/
theorem Stored.eq_ok_iff {c : Builder} (h : Stored message b bits refs noBytes x) :
    x = .ok c ↔ ¬ noBytes ∧ b.Grows bits refs c := by
  cases h with
  | appended grows bytes =>
    rw [and_iff_right bytes, Except.ok.injEq]
    constructor
    · rintro rfl
      exact grows
    · exact grows.unique
  | bitOverflow requested left short =>
    exact ⟨nofun, fun stored => absurd stored.2.room.1 (Nat.not_le_of_lt short)⟩
  | refOverflow short =>
    exact ⟨nofun, fun stored => absurd stored.2.room.2 (Nat.not_le_of_lt short)⟩
  | refused empty => exact ⟨nofun, fun stored => absurd empty stored.1⟩

/-- The ways in which it fails: too few bits left, too few references, or a number of no bytes. -/
theorem Stored.error_cases {e : BindingError} (h : Stored message b bits refs noBytes (.error e)) :
    (b.bitsLeft < bits.length ∧
        ∃ requested left, e = .payload message (.bitOverflow requested left)) ∨
      (b.refsLeft < refs.length ∧ e = .payload message .refOverflow) ∨
      (noBytes ∧ e = .payload message (.invalidWidth 0)) := by
  cases h with
  | bitOverflow requested left short => exact .inl ⟨short, requested, left, rfl⟩
  | refOverflow short => exact .inr (.inl ⟨short, rfl⟩)
  | refused empty => exact .inr (.inr ⟨empty, rfl⟩)

end Outcomes

/-- Zero of a bound of zero is refused by every builder. -/
theorem Field.store_noBytes {f : Field} (noBytes : f.category = .varUInt 0) :
    f.store message f.category.madeUp b = .error (.payload message (.invalidWidth 0)) := by
  rw [Field.store, Field.storeOp, noBytes]
  rfl

/-- A field is stored with the value that is made up for it if there is room. -/
theorem Field.stored_default (f : Field) (bounded : f.category.Bounded) :
    Stored message b (f.storeOp.encodedBits f.category.madeUp)
      (f.storeOp.encodedRefs f.category.madeUp) (f.category = .varUInt 0)
      (f.store message f.category.madeUp b) := by
  by_cases noBytes : f.category = .varUInt 0
  · rw [Field.store_noBytes noBytes]
    exact .refused noBytes
  · obtain ⟨store, found, fills⟩ := StoreOp.exists_fills f.category.takes_madeUp
      (bounded.inRange_madeUp noBytes) bounded.isPlain_or_madeUp
    have filled := fills b
    rw [Field.store, Field.storeOp, found]
    dsimp only
    generalize store b = result at filled
    cases filled with
    | stored grows => exact .appended grows noBytes
    | bitOverflow short => exact .bitOverflow _ _ short
    | refOverflow short => exact .refOverflow short

/-- Fields with the values that are made up for them. -/
def withDefaults (fields : List Field) : List (Field × WireValue) :=
  fields.map fun f => (f, f.category.madeUp)

theorem Send.zip_defaultArgs (s : Send) :
    s.body.fields.zip s.defaultArgs = withDefaults s.body.fields :=
  List.map_prod_left_eq_zip.symm

/-- By induction on the fields; the builder is the one that the fields before have left. -/
theorem storeFields_default {fields : List Field} (bounded : ∀ f ∈ fields, f.category.Bounded) :
    Stored message b (fieldBits (withDefaults fields)) (fieldRefs (withDefaults fields))
      (∃ f ∈ fields, f.category = .varUInt 0) (storeFields message (withDefaults fields) b) := by
  induction fields generalizing b with
  | nil =>
    have nothing : Stored message b [] [] False (.ok b) :=
      .appended (Builder.grows_nil_iff.mpr rfl) id
    simpa [withDefaults, fieldBits, fieldRefs, storeFields] using nothing
  | cons f fields ih =>
    obtain ⟨first, others⟩ := List.forall_mem_cons.mp bounded
    simp only [List.exists_mem_cons_iff]
    exact (f.stored_default first).bind fun _ => ih others

variable {s : Send}

/-- Past the count of the arguments, a payload fails as its fields do. -/
theorem Send.payload_failed {args : List WireValue} {e : BindingError}
    (arity : args.length = s.body.fields.length) : s.payload args = .error e ↔
      storeFields s.message (s.body.fields.zip args) (afterOpcode s.body.opcode) = .error e := by
  simp only [Send.payload, store_opcode, if_neg (not_not_intro arity)]
  cases storeFields s.message (s.body.fields.zip args) (afterOpcode s.body.opcode) <;>
    simp [bind, Except.bind, pure, Except.pure]

/-- What comes of a body with the values that are made up for its fields. -/
theorem Send.payload_default (bounded : ∀ f ∈ s.body.fields, f.category.Bounded) :
    (∀ cell, s.payload s.defaultArgs = .ok cell ↔
      cell = s.layout s.defaultArgs ∧ cell.bits.length ≤ 1023 ∧ cell.refs.length ≤ 4 ∧
        ∀ f ∈ s.body.fields, f.category ≠ .varUInt 0) ∧
    ∀ e, s.payload s.defaultArgs = .error e →
      (1023 < (s.layout s.defaultArgs).bits.length ∧
          ∃ requested left, e = .payload s.message (.bitOverflow requested left)) ∨
        (4 < (s.layout s.defaultArgs).refs.length ∧ e = .payload s.message .refOverflow) ∨
        ((∃ f ∈ s.body.fields, f.category = .varUInt 0) ∧
          e = .payload s.message (.invalidWidth 0)) := by
  have arity : s.defaultArgs.length = s.body.fields.length := List.length_map _
  have stored : Stored s.message (afterOpcode s.body.opcode) _ _ _ _ := storeFields_default bounded
  rw [← s.zip_defaultArgs] at stored
  -- The opcode takes bits but no reference, so that the fields begin with the room that it leaves.
  have narrow := s.body.opcode.bitWidth_le
  have room := bitsLeft_afterOpcode s.body.opcode
  have places : (afterOpcode s.body.opcode).refsLeft = 4 := rfl
  have length : (s.layout s.defaultArgs).bits.length =
      s.body.opcode.bitWidth + (fieldBits (s.body.fields.zip s.defaultArgs)).length := by
    rw [Send.layout, List.length_append, Bits.length_ofNat]
  have refs : (s.layout s.defaultArgs).refs = fieldRefs (s.body.fields.zip s.defaultArgs) := rfl
  constructor
  · intro cell
    rw [Send.payload_stored]
    simp only [stored.eq_ok_iff]
    constructor
    · intro built
      obtain ⟨-, final, ⟨bytes, grows⟩, rfl⟩ := built
      have whole := build_eq_layout grows
      exact ⟨whole, final.bits_le, final.refs_le, by simpa using bytes⟩
    · intro built
      obtain ⟨rfl, fits, place, bytes⟩ := built
      rw [refs] at place
      obtain ⟨final, grows⟩ : ∃ final, (afterOpcode s.body.opcode).Grows
          (fieldBits (s.body.fields.zip s.defaultArgs))
          (fieldRefs (s.body.fields.zip s.defaultArgs)) final := by
        rw [Builder.exists_grows_iff]
        exact ⟨by omega, by omega⟩
      exact ⟨arity, final, ⟨by simpa using bytes, grows⟩, build_eq_layout grows⟩
  · intro e failed
    rw [(Send.payload_failed arity).mp failed] at stored
    rw [refs, length]
    rcases stored.error_cases with ⟨short, overflow⟩ | ⟨short, overflow⟩ | refused
    · exact .inl ⟨by omega, overflow⟩
    · exact .inr (.inl ⟨by omega, overflow⟩)
    · exact .inr (.inr refused)

end Binding

namespace Contract

open Binding (Model Send)

variable {doc : Document} {contract : Contract} {s : Send}

/-- A probe whose message body is not built sends nothing. -/
theorem probeSend_run_of_error (ofModel : contract.type ∈ (Model.ofDocument doc).classes)
    (ofClass : s ∈ contract.type.sends) {e : BindingError}
    (failed : contract.payload s.message s.defaultArgs = .error e) (R : Runtime)
    (history : List Call) :
    (contract.probeSend s.message).run.run R history = (.error e, history) := by
  have found : contract.sendOf s.message = .ok s := by
    rw [sendOf, Model.send?_of_mem ofModel ofClass]
  have probe : contract.probeSend s.message = discard (contract.send s.message s.defaultArgs) := by
    rw [probeSend, found, Access.ok_bind]
  rw [probe, Access.run_discard, send, failed]
  rfl

/-- The values that are made up for a message of a model are stored if there is room for them, but
for the zero of a bound of zero: the body is built just if it fits into a cell and no field has such
a bound. If it is not built, then nothing is sent, and the error is that there is no room, or the
width of that zero. -/
theorem payload_defaultArgs (ofModel : contract.type ∈ (Model.ofDocument doc).classes)
    (ofClass : s ∈ contract.type.sends) :
    (∀ cell, contract.payload s.message s.defaultArgs = .ok cell ↔
      cell = s.layout s.defaultArgs ∧ cell.bits.length ≤ 1023 ∧ cell.refs.length ≤ 4 ∧
        ∀ f ∈ s.body.fields, f.category ≠ .varUInt 0) ∧
    ∀ e, contract.payload s.message s.defaultArgs = .error e →
      (∀ R history, (contract.probeSend s.message).run.run R history = (.error e, history)) ∧
      ((1023 < (s.layout s.defaultArgs).bits.length ∧
          ∃ requested left, e = .payload s.message (.bitOverflow requested left)) ∨
        (4 < (s.layout s.defaultArgs).refs.length ∧ e = .payload s.message .refOverflow) ∨
        ((∃ f ∈ s.body.fields, f.category = .varUInt 0) ∧
          e = .payload s.message (.invalidWidth 0))) := by
  obtain ⟨built, failed⟩ := Send.payload_default (bounded_fields ofModel ofClass)
  have same := payload_of_mem ofModel ofClass s.defaultArgs
  constructor
  · intro cell
    rw [same, built]
  · intro e error
    exact ⟨probeSend_run_of_error ofModel ofClass error, failed e (same ▸ error)⟩

/-- A message of which all six kinds of fields are made up. -/
theorem payload_defaultArgs_nftTransfer :
    nftItem.type ∈ (Model.ofDocument transfers).classes ∧ nftTransfer ∈ nftItem.type.sends ∧
      nftItem.payload "nft_transfer" nftTransfer.defaultArgs =
        .ok (nftTransfer.layout nftTransfer.defaultArgs) := by
  have ofModel : nftItem.type ∈ (Model.ofDocument transfers).classes := by decide +kernel
  have ofClass : nftTransfer ∈ nftItem.type.sends := List.mem_singleton_self nftTransfer
  have bits : (nftTransfer.layout nftTransfer.defaultArgs).bits.length ≤ 1023 := by decide +kernel
  have refs : (nftTransfer.layout nftTransfer.defaultArgs).refs.length ≤ 4 := by decide +kernel
  have bytes : ∀ f ∈ nftTransfer.body.fields, f.category ≠ .varUInt 0 := by decide
  exact ⟨ofModel, ofClass, ((payload_defaultArgs ofModel ofClass).1 _).mpr ⟨rfl, bits, refs, bytes⟩⟩

/-- A description with one message, whose field has no values. -/
def withdrawals : Document where
  interfaces := [⟨"wallet", none, none, [], ["withdraw"], []⟩]
  getMethods := []
  messages := [⟨"withdraw", .parsed ⟨"withdraw", ⟨"7d", by decide, by decide, by decide⟩,
    [⟨none, "amount", "(VarUInteger 0)"⟩], "InternalMsgBody"⟩⟩]

def withdraw : Send where
  message := "withdraw"
  ident := "send_withdraw"
  probeIdent := "probe_send_withdraw"
  body := ⟨"Withdraw", "withdraw", ⟨"7d", by decide, by decide, by decide⟩,
    [⟨"amount", "amount", .varUInt 0⟩], "InternalMsgBody"⟩

/-- A contract with the interface of the description. -/
def wallet : Contract where
  type := ⟨"wallet", "Wallet", "wallet", none, ["wallet"], [], [withdraw], []⟩
  address := .zero

/-- There is room in the cell for the opcode alone, and the zero is refused for its width. -/
theorem payload_defaultArgs_withdraw :
    wallet.type ∈ (Model.ofDocument withdrawals).classes ∧ withdraw ∈ wallet.type.sends ∧
      (withdraw.layout withdraw.defaultArgs).bits.length ≤ 1023 ∧
      (withdraw.layout withdraw.defaultArgs).refs.length ≤ 4 ∧
      wallet.payload "withdraw" withdraw.defaultArgs =
        .error (.payload "withdraw" (.invalidWidth 0)) := by
  have ofModel : wallet.type ∈ (Model.ofDocument withdrawals).classes := by decide +kernel
  have ofClass : withdraw ∈ wallet.type.sends := List.mem_singleton_self withdraw
  have bits : (withdraw.layout withdraw.defaultArgs).bits.length ≤ 1023 := by decide +kernel
  have refs : (withdraw.layout withdraw.defaultArgs).refs.length ≤ 4 := by decide +kernel
  refine ⟨ofModel, ofClass, bits, refs, ?_⟩
  have arity : withdraw.defaultArgs.length = withdraw.body.fields.length := rfl
  refine (payload_of_mem ofModel ofClass _).trans ((Send.payload_failed arity).mpr ?_)
  rw [Send.zip_defaultArgs]
  exact congrArg (· >>= _) (Binding.Field.store_noBytes rfl)

end Contract

end ContractAbi
