import ContractAbi.Contract.Payload
import ContractAbi.Proofs.Cell.Stores

/-!
# What a field of a message body becomes

For each store operation: the values that it takes (`Takes`), those of them that are in its range
(`InRange`), and the bits and references that such a value becomes. `exists_store_iff` says that the
operation succeeds for these values and no others, as long as there is room, and `storeFields_eq_ok`
says the same of all fields of a body in a row.
-/

namespace ContractAbi

namespace StoreOp

/-- The kinds of values that an operation takes. A text counts where an address is wanted if it is
the text of one. -/
inductive Takes : StoreOp → WireValue → Prop
  | uint (width : Nat) (v : Int) : Takes (.uint width) (.int v)
  | int (width : Nat) (v : Int) : Takes (.int width) (.int v)
  | varUInt (bound : Nat) (v : Int) : Takes (.varUInt bound) (.int v)
  | bit (b : Bool) : Takes .bit (.bool b)
  | address (a : Address) : Takes .address (.address a)
  | addressText {s : String} {a : Address} : Address.parse s = .ok a → Takes .address (.text s)
  | noAddress : Takes .address .null
  | maybeCell (c : Cell) : Takes .maybeRef (.cell c)
  | maybeSlice (c : Cell) : Takes .maybeRef (.slice c)
  | noCell : Takes .maybeRef .null
  | cell (c : Cell) : Takes .ref (.cell c)
  | slice (c : Cell) : Takes .ref (.slice c)
  | text (s : String) : Takes .text (.text s)

/-- Whether an integer is in the range of the operation. Other values have none. -/
def InRange : StoreOp → WireValue → Prop
  | .uint width, .int v => 0 ≤ v ∧ v < (2 ^ width : Nat)
  | .int width, .int v => width ≠ 0 ∧ -(2 ^ (width - 1) : Nat) ≤ v ∧ v < (2 ^ (width - 1) : Nat)
  | .varUInt bound, .int v => 0 ≤ v ∧ bound ≠ 0 ∧ Bits.byteSize v.toNat < bound
  | _, _ => True

/-- The bits that a value becomes. -/
def encodedBits : StoreOp → WireValue → List Bool
  | .uint width, .int v => Bits.ofNat width v.toNat
  | .int width, .int v => Bits.ofInt width v
  | .varUInt bound, .int v =>
    Bits.ofNat (Store.headerBits bound) (Bits.byteSize v.toNat) ++
      Bits.ofNat (Bits.byteSize v.toNat * 8) v.toNat
  | .bit, .bool b => [b]
  | .address, .address a => Store.addressBits a
  | .address, .text s =>
    match Address.parse s with
    | .ok a => Store.addressBits a
    | .error _ => []
  | .address, .null => [false, false]
  | .maybeRef, .cell _ | .maybeRef, .slice _ => [true]
  | .maybeRef, .null => [false]
  | _, _ => []

/-- The references that a value becomes. -/
def encodedRefs : StoreOp → WireValue → List Cell
  | .maybeRef, .cell c | .maybeRef, .slice c | .ref, .cell c | .ref, .slice c => [c]
  | _, _ => []

/-- Operations whose encoding does not depend on the room that is left, with a bound that is a
word. -/
def IsPlain : StoreOp → Prop
  | .text => False
  | .varUInt bound => bound ≤ Category.maxWord
  | _ => True

theorem headerBits_le {bound : Nat} (word : bound ≤ Category.maxWord) :
    Store.headerBits bound ≤ 64 := by
  have word : bound ≤ 65535 := word
  unfold Store.headerBits Bits.size
  by_cases zero : bound - 1 = 0
  · rw [if_pos zero]
    decide
  · rw [if_neg zero]
    have : (bound - 1).log2 < 16 := (Nat.log2_lt zero).mpr (by omega)
    omega

variable {b c : Builder} {op : StoreOp} {v : WireValue}

/-- What it means that a value is stored: it is taken, it is in range, and what it becomes is
appended. -/
def Appends (op : StoreOp) (v : WireValue) (b c : Builder) : Prop :=
  op.Takes v ∧ op.InRange v ∧ b.Grows (op.encodedBits v) (op.encodedRefs v) c

theorem takes_of_store? {store : Store} (found : op.store? v = some store) : op.Takes v := by
  unfold store? at found
  split at found
  · exact .uint ..
  · exact .int ..
  · exact .varUInt ..
  · exact .bit _
  · exact .address _
  · exact .noAddress
  · split at found
    · rename_i parsed
      exact .addressText parsed
    · cases found
  · exact .noCell
  · exact .maybeCell _
  · exact .maybeSlice _
  · exact .text _
  · exact .cell _
  · exact .slice _
  · cases found

/-- An operation stores a value in one way at most. -/
theorem exists_store?_eq_ok {store : Store} (found : op.store? v = some store) :
    (∃ s, op.store? v = some s ∧ s b = .ok () c) ↔ store b = .ok () c := by
  rw [found]
  simp

/-- A plain field with a value that it takes: stored just where it is in range and there is room,
and then exactly its encoding is behind the builder. -/
theorem exists_store_iff_of_takes (plain : op.IsPlain) (takes : op.Takes v) :
    (∃ store, op.store? v = some store ∧ store b = .ok () c) ↔
      op.InRange v ∧ b.Grows (op.encodedBits v) (op.encodedRefs v) c := by
  cases takes with
  | uint width v =>
    by_cases positive : 0 ≤ v
    · have found : (StoreOp.uint width).store? (.int v) = some (Store.uint v.toNat width) :=
        if_pos positive
      rw [exists_store?_eq_ok found, Store.uint_eq_ok]
      simp [InRange, encodedBits, encodedRefs, positive, Int.toNat_lt positive]
    · simp [store?, InRange, positive]
  | int width v =>
    rw [exists_store?_eq_ok rfl, Store.int_eq_ok]
    simp [InRange, encodedBits, encodedRefs, Store.fitsSigned, Bits.limit_eq, and_assoc]
  | varUInt bound v =>
    by_cases positive : 0 ≤ v
    · have found : (StoreOp.varUInt bound).store? (.int v) = some (Store.varUInt v.toNat bound) :=
        if_pos positive
      -- The number of bytes is stored as a machine word, which is wide enough for every bound.
      have narrow : Store.headerBits bound ≤ 64 := headerBits_le plain
      have range : (StoreOp.varUInt bound).InRange (.int v) ↔ Bits.byteSize v.toNat < bound :=
        ⟨fun h => h.2.2, fun below => ⟨positive, Nat.ne_zero_of_lt below, below⟩⟩
      rw [exists_store?_eq_ok found, Store.varUInt_eq_ok, range, and_iff_right narrow]
      rfl
    · simp [store?, InRange, positive]
  | bit x =>
    rw [exists_store?_eq_ok rfl, Store.bit_eq_ok]
    exact (and_iff_right trivial).symm
  | address a =>
    rw [exists_store?_eq_ok rfl, Store.address_some_eq_ok]
    exact (and_iff_right trivial).symm
  | @addressText s a parsed =>
    have found : StoreOp.address.store? (.text s) = some (Store.address (some a)) := by
      rw [store?, parsed]
    have bits : StoreOp.address.encodedBits (.text s) = Store.addressBits a := by
      rw [encodedBits, parsed]
    rw [exists_store?_eq_ok found, Store.address_some_eq_ok, bits]
    exact (and_iff_right trivial).symm
  | noAddress =>
    rw [exists_store?_eq_ok rfl, Store.address_none_eq_ok]
    exact (and_iff_right trivial).symm
  | maybeCell r | maybeSlice r =>
    rw [exists_store?_eq_ok rfl, Store.maybeRef_some_eq_ok]
    exact (and_iff_right trivial).symm
  | noCell =>
    rw [exists_store?_eq_ok rfl, Store.maybeRef_none_eq_ok]
    exact (and_iff_right trivial).symm
  | cell r | slice r =>
    rw [exists_store?_eq_ok rfl, Store.ref_eq_ok]
    exact (and_iff_right trivial).symm
  | text s => exact absurd plain id

/-- The same with no condition on the value. -/
theorem exists_store_iff (plain : op.IsPlain) :
    (∃ store, op.store? v = some store ∧ store b = .ok () c) ↔ op.Appends v b c := by
  constructor
  · rintro ⟨store, found, stored⟩
    have takes := takes_of_store? found
    exact ⟨takes, (exists_store_iff_of_takes plain takes).mp ⟨store, found, stored⟩⟩
  · rintro ⟨takes, rest⟩
    exact (exists_store_iff_of_takes plain takes).mpr rest

end StoreOp

namespace Binding

variable {b c : Builder}

variable {message : String} {f : Field} {v : WireValue}

theorem Field.store_eq_ok_iff : f.store message v b = .ok c ↔
    ∃ store, f.storeOp.store? v = some store ∧ store b = .ok () c := by
  rw [Field.store]
  cases found : f.storeOp.store? v with
  | none => simp
  | some store =>
    cases stored : store b <;> simp [stored]

/-- Storing a field appends the encoding of its value. -/
theorem Field.store_eq_ok (plain : f.storeOp.IsPlain) :
    f.store message v b = .ok c ↔ f.storeOp.Appends v b c := by
  rw [Field.store_eq_ok_iff, StoreOp.exists_store_iff plain]

theorem storeFields_cons_eq_ok {fields : List (Field × WireValue)} :
    storeFields message ((f, v) :: fields) b = .ok c ↔
      ∃ d, f.store message v b = .ok d ∧ storeFields message fields d = .ok c := by
  rw [storeFields]
  cases f.store message v b <;> simp [bind, Except.bind]

/-- The bits of fields with their values, in order. -/
def fieldBits (fields : List (Field × WireValue)) : List Bool :=
  fields.flatMap fun p => p.1.storeOp.encodedBits p.2

/-- The references of fields with their values, in order. -/
def fieldRefs (fields : List (Field × WireValue)) : List Cell :=
  fields.flatMap fun p => p.1.storeOp.encodedRefs p.2

/-- Fields are stored in a row exactly when each takes its value and there is room for all. -/
theorem storeFields_eq_ok {fields : List (Field × WireValue)}
    (plain : ∀ p ∈ fields, p.1.storeOp.IsPlain) :
    storeFields message fields b = .ok c ↔
      (∀ p ∈ fields, p.1.storeOp.Takes p.2 ∧ p.1.storeOp.InRange p.2) ∧
        b.Grows (fieldBits fields) (fieldRefs fields) c := by
  induction fields generalizing b with
  | nil => simp [storeFields, fieldBits, fieldRefs, Builder.grows_nil_iff, eq_comm]
  | cons p fields ih =>
    obtain ⟨f, v⟩ := p
    have plainF : f.storeOp.IsPlain := plain (f, v) List.mem_cons_self
    have plainRest : ∀ p ∈ fields, p.1.storeOp.IsPlain := fun p member =>
      plain p (List.mem_cons_of_mem _ member)
    have bits : fieldBits ((f, v) :: fields) = f.storeOp.encodedBits v ++ fieldBits fields := rfl
    have refs : fieldRefs ((f, v) :: fields) = f.storeOp.encodedRefs v ++ fieldRefs fields := rfl
    rw [storeFields_cons_eq_ok, bits, refs, List.forall_mem_cons, Builder.grows_append_iff]
    constructor
    · rintro ⟨d, first, rest⟩
      obtain ⟨takes, range, here⟩ := (Field.store_eq_ok plainF).mp first
      obtain ⟨all, behind⟩ := (ih plainRest).mp rest
      exact ⟨⟨⟨takes, range⟩, all⟩, d, here, behind⟩
    · rintro ⟨⟨⟨takes, range⟩, all⟩, d, here, behind⟩
      exact ⟨d, (Field.store_eq_ok plainF).mpr ⟨takes, range, here⟩,
        (ih plainRest).mpr ⟨all, behind⟩⟩

end Binding

end ContractAbi
