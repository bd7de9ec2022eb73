import ContractAbi.Proofs.Cell.Packing
import ContractAbi.Proofs.Cell.RoundTrip

/-!
# Filling a builder

Some stores are made of smaller ones, each of which could fail when the ones before it have already
appended something. None does: a store checks first that there is room for all of it, and what it
checks later always holds. So a store appends what there is room for or changes nothing
(`Entry.appends_or_fails`), and the bytes of a builder are always those of its bits
(`Builder.filled_sound`).
-/

namespace ContractAbi

variable {b : Builder}

namespace Store

/-- From this builder the store appends bits and references, or fails where it began. -/
def AppendsOrFails (x : Store) (b : Builder) : Prop :=
  (∃ bits refs c, b.Grows bits refs c ∧ x b = .ok () c) ∨ ∃ e, x b = .error e b

/-- A store that appends whatever there is room for. -/
theorem AppendsOrFails.of_room {x : Store} (bits : List Bool) (refs : List Cell)
    (bitRoom : bits.length ≤ b.bitsLeft) (refRoom : refs.length ≤ b.refsLeft)
    (ok : ∀ {c}, b.Grows bits refs c → x b = .ok () c) : AppendsOrFails x b := by
  obtain ⟨c, grows⟩ := Builder.exists_grows_iff.mpr ⟨bitRoom, refRoom⟩
  exact .inl ⟨bits, refs, c, grows, ok grows⟩

/-- A check in front of a store appends nothing. -/
theorem AppendsOrFails.guarded {p : Prop} [Decidable p] {e : CellError} {x : Store}
    (rest : ¬ p → AppendsOrFails x b) : AppendsOrFails (if p then fail e else x) b := by
  by_cases refused : p
  · rw [if_pos refused]
    exact .inr ⟨e, rfl⟩
  · rw [if_neg refused]
    exact rest refused

/-- A first step that changes nothing can be left out if it succeeds. -/
theorem AppendsOrFails.behind {x : Store} {f : Unit → Store} (passed : x b = .ok () b)
    (rest : AppendsOrFails (f ()) b) : AppendsOrFails (x >>= f) b := by
  have skipped : (x >>= f) b = f () b := by
    change EStateM.bind x f b = _
    simp only [EStateM.bind, passed]
  unfold AppendsOrFails
  rw [skipped]
  exact rest

/-- Behind a check that passes just under a condition there is this condition. -/
theorem AppendsOrFails.checked {p : Prop} {check : Store} {e : CellError} {f : Unit → Store}
    (passes : p → check b = .ok () b) (fails : ¬ p → check b = .error e b)
    (rest : p → AppendsOrFails (f ()) b) : AppendsOrFails (check >>= f) b := by
  by_cases met : p
  · exact .behind (passes met) (rest met)
  · exact .inr ⟨e, bind_eq_error.mpr (.inl (fails met))⟩

/-- Behind a check of the room for bits there is this room. -/
theorem AppendsOrFails.needBits {n : Nat} {f : Unit → Store}
    (rest : n ≤ b.bitsLeft → AppendsOrFails (f ()) b) :
    AppendsOrFails (Store.needBits n >>= f) b :=
  .checked (fun room => needBits_eq_ok.mpr ⟨room, rfl⟩)
    (fun short => needBits_eq_error (Nat.lt_of_not_le short)) rest

/-- Behind a check of the room for references there is this room. -/
theorem AppendsOrFails.needRefs {n : Nat} {f : Unit → Store}
    (rest : n ≤ b.refsLeft → AppendsOrFails (f ()) b) :
    AppendsOrFails (Store.needRefs n >>= f) b :=
  .checked (fun room => needRefs_eq_ok.mpr ⟨room, rfl⟩)
    (fun short => needRefs_eq_error (Nat.lt_of_not_le short)) rest

variable (b)

theorem bits_appendsOrFails (xs : List Bool) : AppendsOrFails (bits xs) b := by
  by_cases room : xs.length ≤ b.bitsLeft
  · exact .of_room xs [] room (Nat.zero_le _) bits_eq_ok.mpr
  · exact .inr ⟨_, bits_eq_error (Nat.lt_of_not_le room)⟩

theorem u64_appendsOrFails (value : UInt64) (width : Nat) : AppendsOrFails (u64 value width) b := by
  unfold u64
  apply AppendsOrFails.guarded
  intro _
  apply AppendsOrFails.guarded
  intro _
  exact bits_appendsOrFails b _

theorem i64_appendsOrFails (value : Int64) (width : Nat) : AppendsOrFails (i64 value width) b := by
  unfold i64
  apply AppendsOrFails.guarded
  intro _
  apply AppendsOrFails.guarded
  intro _
  exact bits_appendsOrFails b _

theorem uint_appendsOrFails (value width : Nat) : AppendsOrFails (uint value width) b := by
  unfold uint
  apply AppendsOrFails.guarded
  intro _
  exact bits_appendsOrFails b _

theorem int_appendsOrFails (value : Int) (width : Nat) : AppendsOrFails (int value width) b := by
  unfold int
  apply AppendsOrFails.guarded
  intro _
  apply AppendsOrFails.guarded
  intro _
  exact bits_appendsOrFails b _

/-- Behind the check of the room the header cannot fail for a value out of range, nor the number
itself at all. A header that is too wide fails before anything is appended. -/
theorem varUInt_appendsOrFails (value bound : Nat) : AppendsOrFails (varUInt value bound) b := by
  by_cases stored : Bits.byteSize value < bound ∧ headerBits bound ≤ 64 ∧
      headerBits bound + Bits.byteSize value * 8 ≤ b.bitsLeft
  · obtain ⟨below, narrow, room⟩ := stored
    refine .of_room _ [] ?_ (Nat.zero_le _) fun grows => varUInt_eq_ok.mpr ⟨below, narrow, grows⟩
    simpa using room
  · unfold varUInt
    apply AppendsOrFails.guarded
    intro _
    apply AppendsOrFails.guarded
    intro below
    apply AppendsOrFails.needBits
    intro room
    -- All checks pass, so that it is the header that does not fit into a word.
    have wide : 64 < headerBits bound := by omega
    refine .inr ⟨.invalidWidth (headerBits bound), bind_eq_error.mpr (.inl ?_)⟩
    rw [u64, if_pos wide]
    rfl

/-- The room for an address is checked before its first tag is stored. -/
theorem address_appendsOrFails (a : Option Address) : AppendsOrFails (address a) b := by
  cases a with
  | none => exact u64_appendsOrFails b 0 2
  | some a =>
    apply AppendsOrFails.needBits
    intro room
    rw [← length_addressBits a] at room
    exact .of_room _ [] room (Nat.zero_le _) fun grows =>
      (needBits_bind_eq_ok.mp (address_some_eq_ok.mpr grows)).2

theorem ref_appendsOrFails (r : Cell) : AppendsOrFails (ref r) b := by
  by_cases room : 1 ≤ b.refsLeft
  · exact .of_room [] [r] (Nat.zero_le _) room ref_eq_ok.mpr
  · exact .inr ⟨_, ref_eq_error (Nat.lt_of_not_le room)⟩

/-- The room for the bit and for the reference is checked before either is stored. -/
theorem maybeRef_appendsOrFails (r : Option Cell) : AppendsOrFails (maybeRef r) b := by
  cases r with
  | none => exact bits_appendsOrFails b [false]
  | some r =>
    apply AppendsOrFails.needBits
    intro bitRoom
    apply AppendsOrFails.needRefs
    intro refRoom
    refine .of_room [true] [r] bitRoom refRoom fun grows => ?_
    exact (needRefs_bind_eq_ok.mp (needBits_bind_eq_ok.mp (maybeRef_some_eq_ok.mpr grows)).2).2

/-- The room for a chain is checked before the first byte of the text is stored. -/
theorem text_appendsOrFails (s : String) : AppendsOrFails (text s) b := by
  by_cases fits : s.toUTF8.toList.length ≤ b.bitsLeft / 8
  · refine .of_room _ [] ?_ (Nat.zero_le _) (text_eq_ok_of_le fits).mpr
    rw [Bits.length_ofBytes]
    omega
  · have long : b.bitsLeft / 8 < s.toUTF8.toList.length := Nat.lt_of_not_le fits
    by_cases room : 1 ≤ b.refsLeft
    · refine .of_room _ [_] ?_ room (text_eq_ok_of_lt long).mpr
      rw [Bits.length_ofBytes, List.length_take]
      omega
    · right
      refine ⟨.refOverflow, ?_⟩
      change (if s.toUTF8.toList.length > b.bitsLeft / 8 then _ else _ : Store) b = _
      rw [if_pos long]
      exact bind_eq_error.mpr (.inl (needRefs_eq_error (Nat.lt_of_not_le room)))

end Store

/-- What can be stored in one step: a part, or whole bytes. -/
inductive Entry where
  | part (p : Part)
  | bytes (data : List UInt8)

namespace Entry

/-- The store of an entry. -/
def store : Entry → Store
  | part p => p.store
  | bytes data => Store.bytes data

/-- Whatever is stored, either all of it is appended or nothing. -/
theorem appends_or_fails (entry : Entry) (b : Builder) : Store.AppendsOrFails entry.store b := by
  cases entry with
  | bytes data => exact Store.bits_appendsOrFails b _
  | part p =>
    obtain ⟨kind, value⟩ := p
    cases kind with
    | bit => exact Store.bits_appendsOrFails b _
    | u64 width => exact Store.u64_appendsOrFails b value width
    | i64 width => exact Store.i64_appendsOrFails b value width
    | uint width => exact Store.uint_appendsOrFails b value width
    | int width => exact Store.int_appendsOrFails b value width
    | varUInt bound => exact Store.varUInt_appendsOrFails b value bound
    | address => exact Store.address_appendsOrFails b value
    | standardAddress => exact Store.address_appendsOrFails b (some value)
    | ref => exact Store.ref_appendsOrFails b value
    | maybeRef => exact Store.maybeRef_appendsOrFails b value
    | text => exact Store.text_appendsOrFails b value

end Entry

namespace Builder

/-- The builder behind an entry, stored or not. -/
def after (b : Builder) (entry : Entry) : Builder :=
  match entry.store b with
  | .ok _ c => c
  | .error _ c => c

/-- The builder behind entries that are tried one after the other. -/
def filled (entries : List Entry) : Builder := entries.foldl after empty

/-- The builder fits into a cell, and its bytes are just as many as its bits take. They are the data
of the cell that it is built into: the bits in order, and zeros behind the last of them. -/
structure Sound (b : Builder) : Prop where
  bits_le : b.bits.length ≤ 1023
  refs_le : b.refs.length ≤ 4
  bitLength_eq : b.buffer.bitLength = b.bits.length
  length_data : b.buffer.data.length = (b.bits.length + 7) / 8
  data_eq : b.buffer.data = b.build.data
  stored : ∀ i, i < b.bits.length → b.buffer.bit? i = b.bits[i]?
  padding : ∀ i, b.bits.length ≤ i → i < 8 * b.buffer.data.length → b.buffer.bit? i = some false

/-- The limits are those that every builder has, and its bytes are written bit by bit. -/
theorem sound (b : Builder) : b.Sound := by
  have holds : b.buffer.Holds b.bits := Bits.Buffer.holds_pushAll Bits.Buffer.holds_empty b.bits
  have length := holds.length_data
  exact
    { bits_le := b.bits_le
      refs_le := b.refs_le
      bitLength_eq := holds.1
      length_data := length
      data_eq := holds.data_eq
      stored := by
        intro i inside
        rw [holds.bit?_eq (by omega), List.getElem?_eq_getElem inside]
        rfl
      padding := by
        intro i behind inside
        rw [holds.bit?_eq inside, List.getElem?_eq_none behind]
        rfl }

/-- Storing the entry changes nothing if it fails, and only appends if it succeeds. -/
structure Keeps (b : Builder) (entry : Entry) : Prop where
  failed : ∀ e c, entry.store b = .error e c →
    c.bits = b.bits ∧ c.refs = b.refs ∧ c.buffer = b.buffer
  stored : ∀ u c, entry.store b = .ok u c →
    ∃ bits refs, c.bits = b.bits ++ bits ∧ c.refs = b.refs ++ refs ∧
      c.buffer = b.buffer.pushAll bits

/-- What a store does to the bytes follows from what it does to the bits. -/
theorem keeps (b : Builder) (entry : Entry) : b.Keeps entry := by
  constructor
  · intro e c failed
    obtain ⟨bits, refs, d, _, stored⟩ | ⟨f, refused⟩ := entry.appends_or_fails b
    · rw [stored] at failed
      cases failed
    · rw [refused] at failed
      cases failed
      exact ⟨rfl, rfl, rfl⟩
  · intro u c stored
    obtain ⟨bits, refs, d, grows, appended⟩ | ⟨f, refused⟩ := entry.appends_or_fails b
    · rw [appended] at stored
      cases stored
      refine ⟨bits, refs, grows.bits_eq, grows.refs_eq, ?_⟩
      rw [buffer, grows.bits_eq]
      exact Bits.Buffer.pushAll_append ..
    · rw [refused] at stored
      cases stored

/-- However a builder has come about, it is sound, an entry that is refused leaves it as it is, and
an entry that is stored comes behind everything in it. -/
theorem filled_sound (entries : List Entry) :
    (filled entries).Sound ∧ ∀ entry, (filled entries).Keeps entry :=
  ⟨(filled entries).sound, (filled entries).keeps⟩

end Builder

end ContractAbi
