import ContractAbi.Proofs.Cell.Stores
import ContractAbi.Proofs.Cell.Text

/-!
# Loads undo stores

A load reads a piece if it gives the same value on every slice whose next bits and references are
that piece, and moves behind it. For each store but that of a text, the load of the same name reads
what the store appends. A text is read to the end of the cell, so that its load reads a piece only
if nothing follows.
-/

namespace ContractAbi

namespace Slice

/-- The references that are left. -/
def restRefs (s : Slice) : List Cell := s.cell.refs.drop s.refPos

/-- The slice behind so many more bits and references. -/
def advance (s : Slice) (bits refs : Nat) : Slice :=
  { s with bitPos := s.bitPos + bits, refPos := s.refPos + refs }

/-- What is left of the slice begins with these bits and these references. -/
def Starts (s : Slice) (bits : List Bool) (refs : List Cell) : Prop :=
  bits <+: s.rest ∧ refs <+: s.restRefs

theorem bitsLeft_eq (s : Slice) : s.bitsLeft = s.rest.length := by
  simp [bitsLeft, rest]

theorem refsLeft_eq (s : Slice) : s.refsLeft = s.restRefs.length := by
  simp [refsLeft, restRefs]

@[simp] theorem advance_advance (s : Slice) (m n k l : Nat) :
    (s.advance m k).advance n l = s.advance (m + n) (k + l) := by
  simp [advance, Nat.add_assoc]

@[simp] theorem rest_advance (s : Slice) (n k : Nat) : (s.advance n k).rest = s.rest.drop n := by
  simp [rest, advance]

@[simp] theorem restRefs_advance (s : Slice) (n k : Nat) :
    (s.advance n k).restRefs = s.restRefs.drop k := by
  simp [restRefs, advance]

/-- What begins with two parts has the second one behind the first. -/
theorem append_prefix {α : Type} {xs ys zs : List α} (whole : xs ++ ys <+: zs) :
    xs <+: zs ∧ ys <+: zs.drop xs.length := by
  obtain ⟨more, rfl⟩ := whole
  rw [List.append_assoc, List.drop_left]
  exact ⟨List.prefix_append .., List.prefix_append ..⟩

/-- A slice that starts with two parts has the second one next when it has passed the first. -/
theorem Starts.append {s : Slice} {xs ys : List Bool} {cs ds : List Cell}
    (starts : s.Starts (xs ++ ys) (cs ++ ds)) :
    s.Starts xs cs ∧ (s.advance xs.length cs.length).Starts ys ds := by
  unfold Starts
  rw [rest_advance, restRefs_advance]
  have bits := append_prefix starts.1
  have refs := append_prefix starts.2
  exact ⟨⟨bits.1, refs.1⟩, bits.2, refs.2⟩

/-- Whole bytes leave no odd bits. -/
theorem aligned_of_rest {s : Slice} {bytes : List UInt8} (bits : s.rest = Bits.ofBytes bytes) :
    ¬ s.bitsLeft % 8 ≠ 0 := by
  rw [bitsLeft_eq, bits, Bits.length_ofBytes]
  omega

theorem ref?_refPos (s : Slice) : s.cell.ref? s.refPos = s.restRefs.head? :=
  (List.head?_drop ..).symm

theorem bit?_bitPos (s : Slice) : s.cell.bit? s.bitPos = s.rest.head? :=
  (List.head?_drop ..).symm

/-- There are at least the bits that the slice starts with. -/
theorem Starts.length_le {s : Slice} {bits : List Bool} {refs : List Cell}
    (starts : s.Starts bits refs) : bits.length ≤ s.bitsLeft := by
  rw [bitsLeft_eq]
  exact starts.1.length_le

end Slice

theorem Load.needBits_bind_apply {α : Type} {n : Nat} {f : Unit → Load α} {s : Slice} :
    (Load.needBits n >>= f) s =
      if n > s.bitsLeft then .error (.underflow n s.bitsLeft) s else f () s := by
  have check : Load.needBits n s =
      if n > s.bitsLeft then .error (.underflow n s.bitsLeft) s else .ok () s := by
    change (if n > s.bitsLeft then throw _ else Pure.pure () : Load Unit) s = _
    split <;> rfl
  change EStateM.bind (Load.needBits n) f s = _
  unfold EStateM.bind
  rw [check]
  by_cases short : n > s.bitsLeft
  · rw [if_pos short, if_pos short]
  · rw [if_neg short, if_neg short]

/-- The load reads these bits and references as the value, whatever follows them. -/
def Reads {α : Type} (load : Load α) (bits : List Bool) (refs : List Cell) (v : α) : Prop :=
  ∀ s : Slice, s.Starts bits refs → load s = .ok v (s.advance bits.length refs.length)

namespace Reads

variable {α β : Type} {load : Load α} {bits xs ys : List Bool} {refs cs ds : List Cell}
  {v : α} {w : β}

theorem pure (v : α) : Reads (Pure.pure v) [] [] v := by
  intro s _
  rfl

/-- Loads that follow each other read what stands side by side. -/
theorem bind {f : α → Load β} (first : Reads load xs cs v) (second : Reads (f v) ys ds w) :
    Reads (load >>= f) (xs ++ ys) (cs ++ ds) w := by
  intro s starts
  obtain ⟨here, behind⟩ := starts.append
  rw [bind_eq_ok]
  refine ⟨v, _, first s here, ?_⟩
  rw [second _ behind, Slice.advance_advance, List.length_append, List.length_append]

/-- What follows may also read nothing. -/
theorem andThen {f : α → Load β} (first : Reads load bits refs v) (second : Reads (f v) [] [] w) :
    Reads (load >>= f) bits refs w := by
  have both := first.bind second
  rwa [List.append_nil, List.append_nil] at both

theorem map {f : α → β} (first : Reads load bits refs v) :
    Reads (load >>= fun a => Pure.pure (f a)) bits refs (f v) :=
  first.andThen (f := fun a => Pure.pure (f a)) (pure (f v))

/-- That a load would be taken back if it failed does not matter where it succeeds. -/
theorem atomic (reads : Reads load bits refs v) : Reads (Load.atomic load) bits refs v := by
  intro s starts
  rw [Load.atomic, reads s starts]

/-- A check for fewer bits than are read passes. -/
theorem needBits {n : Nat} (room : n ≤ bits.length) (reads : Reads load bits refs v) :
    Reads (Load.needBits n >>= fun _ => load) bits refs v := by
  intro s starts
  have enough := starts.length_le
  rw [Load.needBits_bind_apply, if_neg (by omega)]
  exact reads s starts

end Reads

namespace Load

/-- A load that is taken back fails where it began. -/
theorem atomic_eq_error {α : Type} {load : Load α} {s t : Slice} {e : CellError}
    (failed : load s = .error e t) : atomic load s = .error e s := by
  unfold atomic
  rw [failed]

/-- A load that is taken back if it fails succeeds as it would by itself. -/
theorem atomic_eq_ok {α : Type} {load : Load α} {s t : Slice} {v : α} :
    atomic load s = .ok v t ↔ load s = .ok v t := by
  unfold atomic
  cases load s <;> simp

theorem bits_eq_ok {n : Nat} {s : Slice} (room : n ≤ s.bitsLeft) :
    bits n s = .ok (s.rest.take n) (s.advance n 0) := by
  unfold bits
  rw [needBits_bind_apply, if_neg (by omega)]
  rfl

/-- Too few bits are an underflow, and nothing is taken. -/
theorem bits_eq_error {n : Nat} {s : Slice} (short : s.bitsLeft < n) :
    bits n s = .error (.underflow n s.bitsLeft) s := by
  unfold bits
  rw [needBits_bind_apply, if_pos short]

/-- What is made of the next bits is there if the bits are. -/
theorem map_bits_eq_ok_iff {α : Type} {f : List Bool → α} {width : Nat} {v : α} {s t : Slice} :
    (do return f (← bits width) : Load α) s = .ok v t ↔
      width ≤ s.bitsLeft ∧ v = f (s.rest.take width) ∧ t = s.advance width 0 := by
  rw [bind_eq_ok]
  by_cases room : width ≤ s.bitsLeft
  · rw [bits_eq_ok room]
    constructor
    · rintro ⟨_, _, loaded, done⟩
      cases loaded
      cases done
      exact ⟨room, rfl, rfl⟩
    · rintro ⟨-, rfl, rfl⟩
      exact ⟨_, _, rfl, rfl⟩
  · rw [bits_eq_error (Nat.lt_of_not_le room)]
    exact iff_of_false nofun fun held => room held.1

/-- A word is loaded just if there are enough bits, and is their number. -/
theorem u64_eq_ok_iff {width : Nat} (narrow : width ≤ 64) {value : UInt64} {s t : Slice} :
    u64 width s = .ok value t ↔ width ≤ s.bitsLeft ∧
      value = UInt64.ofNat (Bits.toNat (s.rest.take width)) ∧ t = s.advance width 0 := by
  unfold u64
  rw [if_neg (by omega)]
  exact map_bits_eq_ok_iff

/-- A number of any width is loaded just if there are enough bits. -/
theorem uint_eq_ok_iff {width value : Nat} {s t : Slice} :
    uint width s = .ok value t ↔
      width ≤ s.bitsLeft ∧ value = Bits.toNat (s.rest.take width) ∧ t = s.advance width 0 :=
  map_bits_eq_ok_iff

theorem reads_bits (xs : List Bool) : Reads (bits xs.length) xs [] xs := by
  intro s starts
  obtain ⟨more, rest⟩ := starts.1
  rw [bits_eq_ok starts.length_le, ← rest, List.take_left]
  rfl

/-- What is written in bits is read by what undoes the writing. -/
theorem reads_written {α : Type} {f : List Bool → α} {xs : List Bool} {width : Nat} {v : α}
    (length : xs.length = width) (back : f xs = v) :
    Reads (do return f (← bits width)) xs [] v := by
  subst length
  subst back
  exact (reads_bits xs).map

theorem reads_bit (b : Bool) : Reads bit [b] [] b := by
  refine reads_written rfl ?_
  cases b <;> rfl

/-- A word is loaded from its bits. -/
theorem reads_u64 {value : UInt64} {width : Nat} (narrow : width ≤ 64)
    (small : value.toNat < 2 ^ width) :
    Reads (u64 width) (Bits.ofNat width value.toNat) [] value := by
  unfold u64
  rw [if_neg (by omega)]
  refine reads_written (Bits.length_ofNat ..) ?_
  rw [Bits.toNat_ofNat_of_lt small, UInt64.ofNat_toNat]

/-- A signed word is loaded from its bits. -/
theorem reads_i64 {value : Int64} {width : Nat} (positive : width ≠ 0) (narrow : width ≤ 64)
    (fits : Store.fitsSigned value.toInt width) :
    Reads (i64 width) (Bits.ofInt width value.toInt) [] value := by
  unfold i64
  rw [if_neg (by omega)]
  refine reads_written (Bits.length_ofInt ..) ?_
  rw [Bits.toInt_ofInt positive fits.1 fits.2, Int64.ofInt_toInt]

/-- A number is loaded from its bits. -/
theorem reads_uint {value width : Nat} (small : value < 2 ^ width) :
    Reads (uint width) (Bits.ofNat width value) [] value :=
  reads_written (Bits.length_ofNat ..) (Bits.toNat_ofNat_of_lt small)

/-- A signed number is loaded from its bits. -/
theorem reads_int {value : Int} {width : Nat} (positive : width ≠ 0)
    (fits : Store.fitsSigned value width) :
    Reads (int width) (Bits.ofInt width value) [] value := by
  unfold int
  rw [if_neg positive]
  exact reads_written (Bits.length_ofInt ..) (Bits.toInt_ofInt positive fits.1 fits.2)

/-- A number behind its length is loaded from both, if they have fitted into a builder. -/
theorem reads_varUInt {b : Builder} {value bound : Nat} (below : Bits.byteSize value < bound)
    (narrow : Store.headerBits bound ≤ 64)
    (room : Store.headerBits bound + Bits.byteSize value * 8 ≤ b.bitsLeft) :
    Reads (varUInt bound) (Bits.ofNat (Store.headerBits bound) (Bits.byteSize value) ++
      Bits.ofNat (Bits.byteSize value * 8) value) [] value := by
  have length := Store.toNat_ofNat_of_room room
  have header : Reads (u64 (Store.headerBits bound))
      (Bits.ofNat (Store.headerBits bound) (Bits.byteSize value)) []
      (UInt64.ofNat (Bits.byteSize value)) := by
    have reads := @reads_u64 (UInt64.ofNat (Bits.byteSize value)) _ narrow
    rw [length] at reads
    exact reads (Store.lt_two_pow_headerBits below)
  unfold varUInt
  rw [if_neg (by omega)]
  refine Reads.atomic (header.bind ?_)
  rw [length, if_neg (by omega), Store.wordBits_of_room room]
  exact reads_uint (Bits.lt_two_pow_byteSize value)

theorem reads_address_none : Reads address [false, false] [] none :=
  Reads.atomic ((reads_bits [false, false]).bind (Reads.pure none))

/-- Behind the tags an address is its workchain and its hash. -/
theorem reads_addressBody (a : Address) :
    Reads addressBody (Bits.ofInt 8 a.workchain.toInt ++ Bits.ofBytes a.hash) [] a := by
  have length : (Bits.ofBytes a.hash).length = 256 := by
    rw [Bits.length_ofBytes, a.length_hash]
  have workchain : Reads (i64 8) (Bits.ofInt 8 a.workchain.toInt) [] a.workchain.toInt64 := by
    have reads := reads_i64 (by decide) (by decide) (Store.fitsSigned_workchain a)
    rwa [Int8.toInt_toInt64] at reads
  have hash := reads_bits (Bits.ofBytes a.hash)
  rw [length] at hash
  have whole : Address.ofHash? a.workchain.toInt64.toInt8 (Bits.pack (Bits.ofBytes a.hash)) =
      some a := by
    rw [Bits.pack_ofBytes, Int8.toInt8_toInt64, Address.ofHash?, dif_pos a.length_hash]
  unfold addressBody
  refine Reads.needBits ?_ (workchain.bind (hash.andThen ?_))
  · simp [length, Address.bitLength]
  · rw [whole]
    exact Reads.pure a

/-- An address is loaded from its bits. -/
theorem reads_address_some (a : Address) : Reads address (Store.addressBits a) [] (some a) := by
  change Reads _ ([true, false] ++ ([false] ++ _)) ([] ++ ([] ++ [])) _
  exact Reads.atomic ((reads_bits _).bind ((reads_bit false).bind (reads_addressBody a).map))

/-- The load for an address that has to be there reads one that is. -/
theorem reads_standardAddress (a : Address) :
    Reads standardAddress (Store.addressBits a) [] a :=
  Reads.atomic ((reads_address_some a).andThen (Reads.pure a))

/-- The next reference is loaded if there is one. -/
theorem ref_eq_ok_iff {s t : Slice} {c : Cell} :
    ref s = .ok c t ↔ s.restRefs.head? = some c ∧ t = s.advance 0 1 := by
  unfold ref
  rw [← Slice.ref?_refPos, bind_eq_ok]
  constructor
  · rintro ⟨_, _, got, others⟩
    cases got
    cases found : s.cell.ref? s.refPos with
    | none =>
      rw [found] at others
      cases others
    | some d =>
      rw [found] at others
      cases others
      exact ⟨rfl, rfl⟩
  · rintro ⟨found, rfl⟩
    refine ⟨s, s, rfl, ?_⟩
    rw [found]
    rfl

theorem reads_ref (c : Cell) : Reads ref [] [c] c := by
  intro s starts
  obtain ⟨more, rest⟩ := starts.2
  refine ref_eq_ok_iff.mpr ⟨?_, rfl⟩
  rw [← rest]
  rfl

/-- Only a set bit without a reference left makes `maybeRef` fail before it reads the bit. -/
theorem maybeRef_apply {s : Slice}
    (sound : ¬ (s.cell.bit? s.bitPos = some true ∧ s.refsLeft = 0)) :
    maybeRef s = (do
      needBits 1
      if (← bit) then return some (← ref) else return none : Load (Option Cell)) s := by
  unfold maybeRef
  rw [needBits_bind_apply, needBits_bind_apply]
  change (if _ then _ else (if _ then _ else _ : Load _) s) = _
  rw [if_neg sound]

theorem reads_maybeRef_none : Reads maybeRef [false] [] none := by
  intro s starts
  obtain ⟨more, rest⟩ := starts.1
  have clear : s.cell.bit? s.bitPos = some false := by
    rw [Slice.bit?_bitPos, ← rest]
    rfl
  rw [maybeRef_apply (by simp [clear])]
  refine Reads.needBits (by decide) ?_ s starts
  exact Reads.andThen (reads_bit false) (Reads.pure none)

theorem reads_maybeRef_some (c : Cell) : Reads maybeRef [true] [c] (some c) := by
  intro s starts
  have present : s.refsLeft ≠ 0 := by
    have := starts.2.length_le
    rw [Slice.refsLeft_eq]
    simp at this
    omega
  rw [maybeRef_apply (by simp [present])]
  refine Reads.needBits (by decide) ?_ s starts
  change Reads _ ([true] ++ []) ([] ++ [c]) _
  exact (reads_bit true).bind (reads_ref c).map

variable {s : Slice} {t : String}

/-- A text without a chain is all of the bits that are left. -/
theorem text_inline (bits : s.rest = Bits.ofBytes t.toUTF8.toList)
    (alone : s.cell.bits.length + 8 ≤ Cell.maxBits ∨ s.refsLeft = 0) :
    text s = .ok t (s.advance s.rest.length 0) := by
  have noChain : ¬ (s.cell.bits.length + 8 > Cell.maxBits ∧ s.refsLeft > 0) := by omega
  change (if s.bitsLeft % 8 ≠ 0 then _ else _ : Load String) s = _
  rw [if_neg (Slice.aligned_of_rest bits)]
  simp only [if_neg noChain, bits, Bits.pack_ofBytes, textOfBytes?_toUTF8, Slice.bitsLeft_eq]
  rfl

/-- In a full cell a text goes on in the chain behind the next reference. -/
theorem text_chain {inline more : List UInt8} {refs : List Cell}
    (whole : inline ++ more = t.toUTF8.toList) (bits : s.rest = Bits.ofBytes inline)
    (full : Cell.maxBits < s.cell.bits.length + 8)
    (chain : s.restRefs = Cell.snake more :: refs) :
    text s = .ok t (s.advance s.rest.length 1) := by
  have present : s.refsLeft > 0 := by
    rw [Slice.refsLeft_eq, chain]
    exact Nat.zero_lt_succ _
  have next : s.cell.ref? s.refPos = some (Cell.snake more) := by
    rw [Slice.ref?_refPos, chain]
    rfl
  change (if s.bitsLeft % 8 ≠ 0 then _ else _ : Load String) s = _
  rw [if_neg (Slice.aligned_of_rest bits)]
  simp only [if_pos (And.intro full present), next, Option.map_some, Cell.snakeBytes?_snake, bits,
    Bits.pack_ofBytes, whole, textOfBytes?_toUTF8, Slice.bitsLeft_eq]
  rfl

end Load

end ContractAbi
