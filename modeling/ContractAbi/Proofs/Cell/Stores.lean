import ContractAbi.Cell.BitsLemmas
import ContractAbi.Cell.Builder

/-!
# When stores succeed, and what they append

Every store appends bits and references and changes nothing else (`Builder.Grows`). For each of them
there is one statement `..._eq_ok`: it says under which conditions the store succeeds, and what it
then has appended. That there was room for it need not be said, since the builder that comes out has
the limits of a cell.
-/

namespace ContractAbi

/-- A sequence succeeds if its first step and, from where that leads, its second one do. -/
theorem bind_eq_ok {ε σ α β : Type} {x : EStateM ε σ α} {f : α → EStateM ε σ β} {s t : σ} {b : β} :
    (x >>= f) s = .ok b t ↔ ∃ a r, x s = .ok a r ∧ f a r = .ok b t := by
  change EStateM.bind x f s = _ ↔ _
  unfold EStateM.bind
  cases x s <;> simp

/-- A sequence fails if its first step or, from where that leads, its second one does. -/
theorem bind_eq_error {ε σ α β : Type} {x : EStateM ε σ α} {f : α → EStateM ε σ β} {s t : σ}
    {e : ε} : (x >>= f) s = .error e t ↔
      x s = .error e t ∨ ∃ a r, x s = .ok a r ∧ f a r = .error e t := by
  change EStateM.bind x f s = _ ↔ _
  unfold EStateM.bind
  cases x s <;> simp

namespace Builder

variable {b c d : Builder} {bits : List Bool} {refs : List Cell}

/-- The second builder holds what the first one does, and more bits and references behind that. -/
structure Grows (b : Builder) (bits : List Bool) (refs : List Cell) (c : Builder) : Prop where
  bits_eq : c.bits = b.bits ++ bits
  refs_eq : c.refs = b.refs ++ refs

/-- Builders that hold the same are the same. -/
theorem eq_of_same (bits : c.bits = b.bits) (refs : c.refs = b.refs) : c = b := by
  obtain ⟨bits, refs, _, _⟩ := b
  obtain ⟨_, _, _, _⟩ := c
  subst bits refs
  rfl

/-- Where there is room, there is a builder with more in it. -/
theorem grows_append (bits : List Bool) (refs : List Cell) (bitRoom : bits.length ≤ b.bitsLeft)
    (refRoom : refs.length ≤ b.refsLeft) :
    b.Grows bits refs (b.append bits refs bitRoom refRoom) := ⟨rfl, rfl⟩

/-- A builder to which nothing is appended stays as it is. -/
theorem grows_nil_iff : b.Grows [] [] c ↔ c = b := by
  constructor
  · rintro ⟨bits, refs⟩
    exact eq_of_same (bits.trans (List.append_nil _)) (refs.trans (List.append_nil _))
  · rintro rfl
    exact ⟨(List.append_nil _).symm, (List.append_nil _).symm⟩

/-- What is appended decides what comes of it. -/
theorem Grows.unique (grows : b.Grows bits refs c) (grows' : b.Grows bits refs d) : c = d :=
  eq_of_same (grows.bits_eq.trans grows'.bits_eq.symm) (grows.refs_eq.trans grows'.refs_eq.symm)

/-- What is appended in two steps stands in their order. -/
theorem Grows.trans {xs ys : List Bool} {cs ds : List Cell} (first : b.Grows xs cs c)
    (second : c.Grows ys ds d) : b.Grows (xs ++ ys) (cs ++ ds) d := by
  constructor
  · rw [second.bits_eq, first.bits_eq, List.append_assoc]
  · rw [second.refs_eq, first.refs_eq, List.append_assoc]

theorem Grows.bitsLeft_eq (grows : b.Grows bits refs c) :
    c.bitsLeft = b.bitsLeft - bits.length := by
  rw [bitsLeft, bitsLeft, grows.bits_eq, List.length_append]
  omega

theorem Grows.refsLeft_eq (grows : b.Grows bits refs c) :
    c.refsLeft = b.refsLeft - refs.length := by
  rw [refsLeft, refsLeft, grows.refs_eq, List.length_append]
  omega

/-- What has been appended was not too much. -/
theorem Grows.room (grows : b.Grows bits refs c) :
    bits.length ≤ b.bitsLeft ∧ refs.length ≤ b.refsLeft := by
  have bitsWithin := c.bits_le
  have refsWithin := c.refs_le
  rw [grows.bits_eq, List.length_append] at bitsWithin
  rw [grows.refs_eq, List.length_append] at refsWithin
  unfold bitsLeft refsLeft
  omega

/-- There is a larger builder just if there is room. -/
theorem exists_grows_iff : (∃ c, b.Grows bits refs c) ↔
    bits.length ≤ b.bitsLeft ∧ refs.length ≤ b.refsLeft := by
  constructor
  · rintro ⟨c, grows⟩
    exact grows.room
  · rintro ⟨bitRoom, refRoom⟩
    exact ⟨_, grows_append _ _ bitRoom refRoom⟩

/-- What is appended can be appended in two steps. -/
theorem grows_append_iff (xs ys : List Bool) (cs ds : List Cell) :
    b.Grows (xs ++ ys) (cs ++ ds) d ↔ ∃ c, b.Grows xs cs c ∧ c.Grows ys ds d := by
  constructor
  · intro grows
    have room := grows.room
    rw [List.length_append, List.length_append] at room
    obtain ⟨c, first⟩ := exists_grows_iff.mpr (⟨by omega, by omega⟩ :
      xs.length ≤ b.bitsLeft ∧ cs.length ≤ b.refsLeft)
    refine ⟨c, first, ?_, ?_⟩
    · rw [grows.bits_eq, first.bits_eq, List.append_assoc]
    · rw [grows.refs_eq, first.refs_eq, List.append_assoc]
  · rintro ⟨c, first, second⟩
    exact first.trans second

theorem bitsLeft_le (b : Builder) : b.bitsLeft ≤ 1023 := Nat.sub_le _ _

end Builder

namespace Store

variable {b c : Builder} {u : Unit}

theorem fail_ne_ok (e : CellError) : fail e b ≠ .ok u c := nofun

/-- What stands behind a check succeeds if the check passes. -/
theorem guarded_eq_ok {p : Prop} [Decidable p] {e : CellError} {x : Store} :
    (if p then fail e else x : Store) b = .ok u c ↔ ¬ p ∧ x b = .ok u c := by
  by_cases refused : p
  · rw [if_pos refused]
    exact iff_of_false (fail_ne_ok e) fun accepted => accepted.1 refused
  · rw [if_neg refused]
    exact (and_iff_right refused).symm

theorem pure_eq_ok : (pure () : Store) b = .ok u c ↔ c = b := by
  simp [pure, EStateM.pure, eq_comm]

/-- The check for room passes just if there is room, and stores nothing. -/
theorem needBits_eq_ok {n : Nat} : needBits n b = .ok u c ↔ n ≤ b.bitsLeft ∧ c = b := by
  rw [← Nat.not_lt, ← pure_eq_ok]
  exact guarded_eq_ok

theorem needRefs_eq_ok {n : Nat} : needRefs n b = .ok u c ↔ n ≤ b.refsLeft ∧ c = b := by
  rw [← Nat.not_lt, ← pure_eq_ok]
  exact guarded_eq_ok

theorem needBits_eq_error {n : Nat} (short : b.bitsLeft < n) :
    needBits n b = .error (.bitOverflow n b.bitsLeft) b := by
  change (if n > b.bitsLeft then fail _ else pure () : Store) b = _
  rw [if_pos short]
  rfl

theorem needRefs_eq_error {n : Nat} (short : b.refsLeft < n) :
    needRefs n b = .error .refOverflow b := by
  change (if n > b.refsLeft then fail _ else pure () : Store) b = _
  rw [if_pos short]
  rfl

/-- Behind a check the builder is the same. -/
theorem check_bind_eq_ok {p : Prop} {check : Store} {f : Unit → Store}
    (passes : ∀ {d}, check b = .ok () d ↔ p ∧ d = b) :
    (check >>= f) b = .ok u c ↔ p ∧ f () b = .ok u c := by
  rw [bind_eq_ok]
  constructor
  · rintro ⟨_, d, passed, rest⟩
    obtain ⟨met, rfl⟩ := passes.mp passed
    exact ⟨met, rest⟩
  · rintro ⟨met, rest⟩
    exact ⟨(), b, passes.mpr ⟨met, rfl⟩, rest⟩

theorem needBits_bind_eq_ok {n : Nat} {f : Unit → Store} :
    (needBits n >>= f) b = .ok u c ↔ n ≤ b.bitsLeft ∧ f () b = .ok u c :=
  check_bind_eq_ok needBits_eq_ok

theorem needRefs_bind_eq_ok {n : Nat} {f : Unit → Store} :
    (needRefs n >>= f) b = .ok u c ↔ n ≤ b.refsLeft ∧ f () b = .ok u c :=
  check_bind_eq_ok needRefs_eq_ok

/-- What is appended if there is room for it is held by the builder that comes out. -/
theorem append_eq_ok {room : Prop} [Decidable room] {xs : List Bool} {rs : List Cell}
    {e : CellError} (bitRoom : room → xs.length ≤ b.bitsLeft)
    (refRoom : room → rs.length ≤ b.refsLeft) (enough : ∀ {d}, b.Grows xs rs d → room) :
    ((if h : room then .ok () (b.append xs rs (bitRoom h) (refRoom h)) else .error e b :
      EStateM.Result CellError Builder Unit) = .ok u c) ↔ b.Grows xs rs c := by
  split
  · rename_i fits
    have grows := Builder.grows_append xs rs (bitRoom fits) (refRoom fits)
    constructor
    · intro stored
      cases stored
      exact grows
    · intro grows'
      rw [grows.unique grows']
  · rename_i short
    exact ⟨nofun, fun grows => absurd (enough grows) short⟩

/-- Bits are stored just if there is a builder that holds them behind its own. -/
theorem bits_eq_ok {xs : List Bool} : bits xs b = .ok u c ↔ b.Grows xs [] c := by
  unfold bits
  exact append_eq_ok _ (fun _ => Nat.zero_le _) fun grows => grows.room.1

theorem bits_eq_error {xs : List Bool} (short : b.bitsLeft < xs.length) :
    bits xs b = .error (.bitOverflow xs.length b.bitsLeft) b :=
  dif_neg (Nat.not_le_of_lt short)

theorem bit_eq_ok {x : Bool} : bit x b = .ok u c ↔ b.Grows [x] [] c := bits_eq_ok

theorem bytes_eq_ok {data : List UInt8} :
    bytes data b = .ok u c ↔ b.Grows (Bits.ofBytes data) [] c := bits_eq_ok

/-- A word is stored just if it fits into its width and the width into the cell. -/
theorem u64_eq_ok {value : UInt64} {width : Nat} :
    u64 value width b = .ok u c ↔ width ≤ 64 ∧ value.toNat < 2 ^ width ∧
      b.Grows (Bits.ofNat width value.toNat) [] c := by
  unfold u64
  rw [guarded_eq_ok, guarded_eq_ok, bits_eq_ok, Bits.limit_eq, Nat.not_lt, ge_iff_le, Nat.not_le]

theorem uint_eq_ok {value width : Nat} : uint value width b = .ok u c ↔
    value < 2 ^ width ∧ b.Grows (Bits.ofNat width value) [] c := by
  unfold uint
  rw [guarded_eq_ok, bits_eq_ok, Bits.limit_eq, ge_iff_le, Nat.not_le]

/-- A signed number has to have a two's complement form of its width. -/
theorem int_eq_ok {value : Int} {width : Nat} : int value width b = .ok u c ↔
    width ≠ 0 ∧ fitsSigned value width ∧ b.Grows (Bits.ofInt width value) [] c := by
  unfold int
  rw [guarded_eq_ok, guarded_eq_ok, bits_eq_ok, Decidable.not_not]

theorem i64_eq_ok {value : Int64} {width : Nat} :
    i64 value width b = .ok u c ↔ width ≠ 0 ∧ width ≤ 64 ∧ fitsSigned value.toInt width ∧
      b.Grows (Bits.ofInt width value.toInt) [] c := by
  unfold i64
  rw [guarded_eq_ok, guarded_eq_ok, bits_eq_ok, Decidable.not_not, not_or, Nat.not_lt, and_assoc]

/-- The length in front of a number needs as many bits as the largest length below the bound. -/
theorem lt_two_pow_headerBits {length bound : Nat} (below : length < bound) :
    length < 2 ^ headerBits bound :=
  Nat.lt_of_le_of_lt (Nat.le_sub_one_of_lt below) (Bits.lt_two_pow_size _)

/-- A length that fits into a cell is not changed by the word that it is written in. -/
theorem toNat_ofNat_of_room {length header : Nat} (room : header + length * 8 ≤ b.bitsLeft) :
    (UInt64.ofNat length).toNat = length := by
  have := b.bitsLeft_le
  have size : UInt64.size = 2 ^ 64 := rfl
  exact UInt64.toNat_ofNat_of_lt' (by omega)

theorem wordBits_of_room {length header : Nat} (room : header + length * 8 ≤ b.bitsLeft) :
    wordBits (length * 8) = length * 8 := by
  have := b.bitsLeft_le
  exact Nat.mod_eq_of_lt (by omega)

/-- Where a number behind its length has been stored, there was room for both. -/
theorem room_of_varUInt {value bound : Nat}
    (grows : b.Grows (Bits.ofNat (headerBits bound) (Bits.byteSize value) ++
      Bits.ofNat (Bits.byteSize value * 8) value) [] c) :
    headerBits bound + Bits.byteSize value * 8 ≤ b.bitsLeft := by
  have room := grows.room.1
  rwa [List.length_append, Bits.length_ofNat, Bits.length_ofNat] at room

/-- A number behind its length is stored just if the length is below the bound and both fit. -/
theorem varUInt_eq_ok {value bound : Nat} :
    varUInt value bound b = .ok u c ↔ Bits.byteSize value < bound ∧ headerBits bound ≤ 64 ∧
      b.Grows (Bits.ofNat (headerBits bound) (Bits.byteSize value) ++
        Bits.ofNat (Bits.byteSize value * 8) value) [] c := by
  unfold varUInt
  rw [guarded_eq_ok, guarded_eq_ok, needBits_bind_eq_ok, bind_eq_ok]
  constructor
  · rintro ⟨_, below, room, _, d, header, body⟩
    obtain ⟨narrow, _, first⟩ := u64_eq_ok.mp header
    obtain ⟨_, second⟩ := uint_eq_ok.mp body
    rw [toNat_ofNat_of_room room] at first
    rw [wordBits_of_room room] at second
    exact ⟨Nat.lt_of_not_le below, narrow, first.trans second⟩
  · rintro ⟨below, narrow, grows⟩
    have room := room_of_varUInt grows
    obtain ⟨d, first, second⟩ := (Builder.grows_append_iff _ _ [] []).mp grows
    refine ⟨by omega, by omega, room, (), d, ?_, ?_⟩
    · rw [u64_eq_ok, toNat_ofNat_of_room room]
      exact ⟨narrow, lt_two_pow_headerBits below, first⟩
    · rw [uint_eq_ok, wordBits_of_room room]
      exact ⟨Bits.lt_two_pow_byteSize value, second⟩

theorem address_none_eq_ok : address none b = .ok u c ↔ b.Grows [false, false] [] c := by
  unfold address
  rw [u64_eq_ok]
  simp [Bits.ofNat]

/-- The bits of an address: the two tags, the workchain and the hash. -/
def addressBits (a : Address) : List Bool :=
  [true, false, false] ++ Bits.ofInt 8 a.workchain.toInt ++ Bits.ofBytes a.hash

theorem length_addressBits (a : Address) : (addressBits a).length = Address.bitLength := by
  simp [addressBits, a.length_hash, Address.bitLength]

theorem fitsSigned_workchain (a : Address) : fitsSigned a.workchain.toInt64.toInt 8 := by
  rw [Int8.toInt_toInt64]
  exact ⟨a.workchain.le_toInt, a.workchain.toInt_lt⟩

/-- An address is stored just if there is room for all of it. -/
theorem address_some_eq_ok {a : Address} :
    address (some a) b = .ok u c ↔ b.Grows (addressBits a) [] c := by
  have tags : Bits.ofNat 3 (4 : UInt64).toNat = [true, false, false] := rfl
  have workchain : a.workchain.toInt64.toInt = a.workchain.toInt := Int8.toInt_toInt64 _
  unfold address
  rw [needBits_bind_eq_ok, bind_eq_ok]
  constructor
  · rintro ⟨_, _, d, tag, rest⟩
    obtain ⟨_, e, number, hash⟩ := bind_eq_ok.mp rest
    obtain ⟨_, _, first⟩ := u64_eq_ok.mp tag
    obtain ⟨_, _, _, second⟩ := i64_eq_ok.mp number
    rw [tags] at first
    rw [workchain] at second
    exact (first.trans second).trans (bytes_eq_ok.mp hash)
  · intro grows
    have room := grows.room.1
    rw [length_addressBits] at room
    obtain ⟨e, front, third⟩ := (Builder.grows_append_iff _ _ [] []).mp grows
    obtain ⟨d, first, second⟩ := (Builder.grows_append_iff _ _ [] []).mp front
    refine ⟨room, (), d, ?_, bind_eq_ok.mpr ⟨(), e, ?_, bytes_eq_ok.mpr third⟩⟩
    · rw [u64_eq_ok, tags]
      exact ⟨by decide, by decide, first⟩
    · rw [i64_eq_ok, workchain]
      exact ⟨by decide, by decide, workchain ▸ fitsSigned_workchain a, second⟩

/-- A reference is stored just if there is a place for it. -/
theorem ref_eq_ok {r : Cell} : ref r b = .ok u c ↔ b.Grows [] [r] c := by
  unfold ref
  exact append_eq_ok (fun _ => Nat.zero_le _) _ fun grows => grows.room.2

theorem ref_eq_error {r : Cell} (full : b.refsLeft < 1) : ref r b = .error .refOverflow b :=
  dif_neg (Nat.not_le_of_lt full)

theorem maybeRef_none_eq_ok : maybeRef none b = .ok u c ↔ b.Grows [false] [] c := bit_eq_ok

/-- A reference that need not be there takes a bit and a place. -/
theorem maybeRef_some_eq_ok {r : Cell} :
    maybeRef (some r) b = .ok u c ↔ b.Grows [true] [r] c := by
  unfold maybeRef
  rw [needBits_bind_eq_ok, needRefs_bind_eq_ok, bind_eq_ok]
  constructor
  · rintro ⟨_, _, _, d, flag, reference⟩
    exact (bit_eq_ok.mp flag).trans (ref_eq_ok.mp reference)
  · intro grows
    obtain ⟨d, flag, reference⟩ := (Builder.grows_append_iff [true] [] [] [r]).mp grows
    exact ⟨grows.room.1, grows.room.2, (), d, bit_eq_ok.mpr flag, ref_eq_ok.mpr reference⟩

/-- A text for which there is room goes into the bits. -/
theorem text_eq_ok_of_le {s : String} (fits : s.toUTF8.toList.length ≤ b.bitsLeft / 8) :
    text s b = .ok u c ↔ b.Grows (Bits.ofBytes s.toUTF8.toList) [] c := by
  have short : ¬ s.toUTF8.toList.length > b.bitsLeft / 8 := by omega
  change (if s.toUTF8.toList.length > b.bitsLeft / 8 then _ else _ : Store) b = _ ↔ _
  rw [if_neg short, if_neg short, List.take_of_length_le fits, bind_eq_ok]
  constructor
  · rintro ⟨_, d, stored, rest⟩
    cases rest
    exact bytes_eq_ok.mp stored
  · intro grows
    exact ⟨(), c, bytes_eq_ok.mpr grows, rfl⟩

/-- Of any other text the bits take what they can, and a chain of cells the rest. -/
theorem text_eq_ok_of_lt {s : String} (long : b.bitsLeft / 8 < s.toUTF8.toList.length) :
    text s b = .ok u c ↔ b.Grows (Bits.ofBytes (s.toUTF8.toList.take (b.bitsLeft / 8)))
      [Cell.snake (s.toUTF8.toList.drop (b.bitsLeft / 8))] c := by
  change (if s.toUTF8.toList.length > b.bitsLeft / 8 then _ else _ : Store) b = _ ↔ _
  rw [if_pos long, needRefs_bind_eq_ok]
  change _ ∧ (bytes _ >>= fun _ => _ : Store) b = _ ↔ _
  rw [if_pos long, bind_eq_ok]
  constructor
  · rintro ⟨_, _, d, head, tail⟩
    have both := (bytes_eq_ok.mp head).trans (ref_eq_ok.mp tail)
    rwa [List.append_nil] at both
  · intro grows
    rw [← List.append_nil (Bits.ofBytes _)] at grows
    obtain ⟨d, head, tail⟩ := (Builder.grows_append_iff _ [] [] _).mp grows
    exact ⟨grows.room.2, (), d, bytes_eq_ok.mpr head, ref_eq_ok.mpr tail⟩

end Store

end ContractAbi
