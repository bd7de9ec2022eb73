import ContractAbi.Proofs.Cell.Loads

/-!
# Cells are read as they were built

What a run of stores puts into a cell is what the run of the loads of the same kinds takes out of
it. Each load starts where its store did, and ends where the next store started; only a text has to
come last, because its load takes all that is left.
-/

namespace ContractAbi

/-- What can be stored in one step, with the width or the bound that it is stored and loaded with.
An address that has to be there is stored like any other, but has its own load. -/
inductive PartKind where
  | bit
  | u64 (width : Nat)
  | i64 (width : Nat)
  | uint (width : Nat)
  | int (width : Nat)
  | varUInt (bound : Nat)
  | address
  | standardAddress
  | ref
  | maybeRef
  | text
  deriving DecidableEq

namespace PartKind

/-- What is stored. -/
def Value : PartKind → Type
  | bit => Bool
  | u64 _ => UInt64
  | i64 _ => Int64
  | uint _ => Nat
  | int _ => Int
  | varUInt _ => Nat
  | address => Option Address
  | standardAddress => Address
  | ref => Cell
  | maybeRef => Option Cell
  | text => String

/-- The store for the kind. -/
def store : (kind : PartKind) → kind.Value → Store
  | bit, v => Store.bit v
  | u64 width, v => Store.u64 v width
  | i64 width, v => Store.i64 v width
  | uint width, v => Store.uint v width
  | int width, v => Store.int v width
  | varUInt bound, v => Store.varUInt v bound
  | address, v => Store.address v
  | standardAddress, v => Store.address (some v)
  | ref, v => Store.ref v
  | maybeRef, v => Store.maybeRef v
  | text, v => Store.text v

/-- The load for the kind. -/
def load : (kind : PartKind) → Load kind.Value
  | bit => Load.bit
  | u64 width => Load.u64 width
  | i64 width => Load.i64 width
  | uint width => Load.uint width
  | int width => Load.int width
  | varUInt bound => Load.varUInt bound
  | address => Load.address
  | standardAddress => Load.standardAddress
  | ref => Load.ref
  | maybeRef => Load.maybeRef
  | text => Load.text

end PartKind

/-- A value of some kind. -/
structure Part where
  kind : PartKind
  value : kind.Value

/-- The store of a part. -/
def Part.store (p : Part) : Store := p.kind.store p.value

/-- Stores parts one after the other. -/
def storeParts : List Part → Store
  | [] => pure ()
  | p :: ps => do
    p.store
    storeParts ps

/-- Loads parts of these kinds one after the other. -/
def loadParts : List PartKind → Load (List Part)
  | [] => return []
  | kind :: kinds => do
    let value ← kind.load
    return ⟨kind, value⟩ :: (← loadParts kinds)

/-- The slice of the finished cell that starts where the builder stood at an earlier time. -/
def Builder.sliceFrom (final b : Builder) : Slice := ⟨final.build, b.bits.length, b.refs.length⟩

variable {b c final : Builder}

namespace Builder

variable {bits more : List Bool} {refs others : List Cell}

/-- From where a builder stood, what was appended later is left. -/
theorem Grows.rest_sliceFrom (grows : b.Grows bits refs c) : (c.sliceFrom b).rest = bits := by
  change c.bits.drop b.bits.length = bits
  rw [grows.bits_eq, List.drop_left]

/-- A reader that begins where the builder was has the new references before it. -/
theorem Grows.restRefs_sliceFrom (grows : b.Grows bits refs c) :
    (c.sliceFrom b).restRefs = refs := by
  change c.refs.drop b.refs.length = refs
  rw [grows.refs_eq, List.drop_left]

/-- Behind what was appended the slice is where the builder stood then. -/
theorem Grows.advance_sliceFrom (grows : b.Grows bits refs c) (final : Builder) :
    (final.sliceFrom b).advance bits.length refs.length = final.sliceFrom c := by
  simp [sliceFrom, Slice.advance, grows.bits_eq, grows.refs_eq]

/-- What is stored first is next in a slice that starts in front of it. -/
theorem Grows.starts_sliceFrom (first : b.Grows bits refs c) (behind : c.Grows more others final) :
    (final.sliceFrom b).Starts bits refs := by
  have both := first.trans behind
  unfold Slice.Starts
  rw [both.rest_sliceFrom, both.restRefs_sliceFrom]
  exact ⟨List.prefix_append .., List.prefix_append ..⟩

end Builder

namespace Part

/-- The load of any part but a text reads what the store of the part has appended. -/
theorem exists_reads {p : Part} (noText : p.kind ≠ .text) (stored : p.store b = .ok () c) :
    ∃ bits refs, b.Grows bits refs c ∧ Reads p.kind.load bits refs p.value := by
  obtain ⟨kind, value⟩ := p
  cases kind with
  | bit => exact ⟨_, _, Store.bit_eq_ok.mp stored, Load.reads_bit value⟩
  | u64 width =>
    obtain ⟨narrow, small, grows⟩ := Store.u64_eq_ok.mp stored
    exact ⟨_, _, grows, Load.reads_u64 narrow small⟩
  | i64 width =>
    obtain ⟨positive, narrow, fits, grows⟩ := Store.i64_eq_ok.mp stored
    exact ⟨_, _, grows, Load.reads_i64 positive narrow fits⟩
  | uint width =>
    obtain ⟨small, grows⟩ := Store.uint_eq_ok.mp stored
    exact ⟨_, _, grows, Load.reads_uint small⟩
  | int width =>
    obtain ⟨positive, fits, grows⟩ := Store.int_eq_ok.mp stored
    exact ⟨_, _, grows, Load.reads_int positive fits⟩
  | varUInt bound =>
    obtain ⟨below, narrow, grows⟩ := Store.varUInt_eq_ok.mp stored
    exact ⟨_, _, grows, Load.reads_varUInt below narrow (Store.room_of_varUInt grows)⟩
  | address =>
    cases value with
    | none => exact ⟨_, _, Store.address_none_eq_ok.mp stored, Load.reads_address_none⟩
    | some a => exact ⟨_, _, Store.address_some_eq_ok.mp stored, Load.reads_address_some a⟩
  | standardAddress =>
    exact ⟨_, _, Store.address_some_eq_ok.mp stored, Load.reads_standardAddress value⟩
  | ref => exact ⟨_, _, Store.ref_eq_ok.mp stored, Load.reads_ref value⟩
  | maybeRef =>
    cases value with
    | none => exact ⟨_, _, Store.maybeRef_none_eq_ok.mp stored, Load.reads_maybeRef_none⟩
    | some r => exact ⟨_, _, Store.maybeRef_some_eq_ok.mp stored, Load.reads_maybeRef_some r⟩
  | text => exact absurd rfl noText

/-- A part that is stored is appended to what was there. -/
theorem exists_grows {p : Part} (stored : p.store b = .ok () c) :
    ∃ bits refs, b.Grows bits refs c := by
  by_cases noText : p.kind = .text
  · obtain ⟨kind, s⟩ := p
    subst noText
    by_cases fits : s.toUTF8.toList.length ≤ b.bitsLeft / 8
    · exact ⟨_, _, (Store.text_eq_ok_of_le fits).mp stored⟩
    · exact ⟨_, _, (Store.text_eq_ok_of_lt (Nat.lt_of_not_le fits)).mp stored⟩
  · obtain ⟨bits, refs, grows, _⟩ := exists_reads noText stored
    exact ⟨bits, refs, grows⟩

end Part

theorem Builder.full_iff : Cell.maxBits < b.build.bits.length + 8 ↔ b.bitsLeft < 8 := by
  change 1023 < b.bits.length + 8 ↔ 1023 - b.bits.length < 8
  omega

/-- A text that has run out of room is loaded from the bits, which it has filled up, and the chain,
whatever is referred to behind that. -/
theorem load_text_of_lt {s : String} {cells : List Cell}
    (long : b.bitsLeft / 8 < s.toUTF8.toList.length) (stored : Store.text s b = .ok () c)
    (behind : c.Grows [] cells final) :
    Load.text (final.sliceFrom b) = .ok s (final.sliceFrom c) := by
  have grows := (Store.text_eq_ok_of_lt long).mp stored
  have both := grows.trans behind
  rw [List.append_nil] at both
  rw [Load.text_chain (List.take_append_drop ..) both.rest_sliceFrom ?_ both.restRefs_sliceFrom,
    both.rest_sliceFrom]
  · exact congrArg _ (grows.advance_sliceFrom final)
  · refine Builder.full_iff.mpr ?_
    rw [both.bitsLeft_eq, Bits.length_ofBytes, List.length_take]
    omega

/-- A text for which there was room is loaded from the bits alone, if nothing is referred to behind
it or there is room for another byte. -/
theorem load_text_of_le {s : String} {cells : List Cell}
    (fits : s.toUTF8.toList.length ≤ b.bitsLeft / 8) (stored : Store.text s b = .ok () c)
    (behind : c.Grows [] cells final) (apart : cells = [] ∨ 8 ≤ c.bitsLeft) :
    Load.text (final.sliceFrom b) = .ok s (final.sliceFrom c) := by
  have grows := (Store.text_eq_ok_of_le fits).mp stored
  have both := grows.trans behind
  rw [List.append_nil, List.nil_append] at both
  rw [Load.text_inline both.rest_sliceFrom ?_, both.rest_sliceFrom]
  · exact congrArg _ (grows.advance_sliceFrom final)
  · obtain rfl | room := apart
    · right
      rw [Slice.refsLeft_eq, both.restRefs_sliceFrom]
      rfl
    · left
      refine Nat.not_lt.mp fun full => ?_
      have short := Builder.full_iff.mp full
      rw [behind.bitsLeft_eq, List.length_nil] at short
      omega

/-- A text at the end of a cell is loaded as it was stored. -/
theorem load_text {s : String} (stored : Store.text s b = .ok () c) :
    Load.text (c.sliceFrom b) = .ok s (c.sliceFrom c) := by
  have nothing := Builder.grows_nil_iff.mpr (rfl : c = c)
  by_cases fits : s.toUTF8.toList.length ≤ b.bitsLeft / 8
  · exact load_text_of_le fits stored nothing (.inl rfl)
  · exact load_text_of_lt (Nat.lt_of_not_le fits) stored nothing

/-- The load of a part takes out what its store put in, and leads to where the store led. What else
comes into the cell comes behind the part, and nothing comes behind a text. -/
theorem Part.load_eq {p : Part} {bits : List Bool} {refs : List Cell}
    (stored : p.store b = .ok () c) (behind : c.Grows bits refs final)
    (last : p.kind = .text → final = c) :
    p.kind.load (final.sliceFrom b) = .ok p.value (final.sliceFrom c) := by
  by_cases isText : p.kind = .text
  · obtain rfl := last isText
    obtain ⟨kind, s⟩ := p
    subst isText
    exact load_text stored
  · obtain ⟨xs, cs, grows, reads⟩ := exists_reads isText stored
    rw [reads _ (grows.starts_sliceFrom behind), grows.advance_sliceFrom]

/-- Parts are stored if the first one is, and the others behind it. -/
theorem storeParts_cons {p : Part} {ps : List Part} :
    storeParts (p :: ps) b = .ok () final ↔
      ∃ c, p.store b = .ok () c ∧ storeParts ps c = .ok () final := by
  rw [storeParts, bind_eq_ok]
  constructor
  · rintro ⟨_, c, first, others⟩
    exact ⟨c, first, others⟩
  · rintro ⟨c, first, others⟩
    exact ⟨(), c, first, others⟩

/-- Parts are loaded if the first one is, and the others behind it. -/
theorem loadParts_cons {p : Part} {ps : List Part} {s u : Slice} :
    loadParts ((p :: ps).map (·.kind)) s = .ok (p :: ps) u ↔
      ∃ r, p.kind.load s = .ok p.value r ∧ loadParts (ps.map (·.kind)) r = .ok ps u := by
  obtain ⟨kind, value⟩ := p
  rw [List.map_cons, loadParts, bind_eq_ok]
  constructor
  · rintro ⟨v, r, first, rest⟩
    obtain ⟨parts, w, others, done⟩ := bind_eq_ok.mp rest
    cases done
    exact ⟨r, first, others⟩
  · rintro ⟨r, first, others⟩
    exact ⟨value, r, first, bind_eq_ok.mpr ⟨ps, u, others, rfl⟩⟩

/-- Parts that are stored are appended to what was there. -/
theorem exists_grows_of_storeParts {ps : List Part} (stored : storeParts ps b = .ok () final) :
    ∃ bits refs, b.Grows bits refs final := by
  induction ps generalizing b with
  | nil =>
    cases stored
    exact ⟨[], [], Builder.grows_nil_iff.mpr rfl⟩
  | cons p ps ih =>
    obtain ⟨c, first, others⟩ := storeParts_cons.mp stored
    obtain ⟨xs, cs, here⟩ := p.exists_grows first
    obtain ⟨ys, ds, behind⟩ := ih others
    exact ⟨_, _, here.trans behind⟩

theorem mem_dropLast_cons {α : Type} {x y : α} {xs : List α} (among : x ∈ xs.dropLast) :
    x ∈ (y :: xs).dropLast := by
  cases xs with
  | nil => contradiction
  | cons z zs => exact List.mem_cons_of_mem _ among

/-- From wherever a run of stores started, the run of the loads takes the parts out again. -/
theorem loadParts_sliceFrom {ps : List Part} (textLast : ∀ p ∈ ps.dropLast, p.kind ≠ .text)
    (stored : storeParts ps b = .ok () final) :
    loadParts (ps.map (·.kind)) (final.sliceFrom b) = .ok ps (final.sliceFrom final) := by
  induction ps generalizing b with
  | nil =>
    cases stored
    rfl
  | cons p ps ih =>
    obtain ⟨c, first, others⟩ := storeParts_cons.mp stored
    obtain ⟨bits, refs, behind⟩ := exists_grows_of_storeParts others
    have last : p.kind = .text → final = c := by
      intro isText
      cases ps with
      | nil => exact (EStateM.Result.ok.inj others).2.symm
      | cons q qs => exact absurd isText (textLast p (List.mem_cons_self ..))
    have textLast : ∀ q ∈ ps.dropLast, q.kind ≠ .text := by
      intro q among
      exact textLast q (mem_dropLast_cons among)
    exact loadParts_cons.mpr ⟨_, p.load_eq first behind last, ih textLast others⟩

/-- If storing parts, one after the other, succeeds on an empty builder, with a text at most as the
last of them, then the loads of the same kinds succeed on the cell, give the same parts, and leave
nothing behind. -/
theorem loadParts_build {parts : List Part} (textLast : ∀ p ∈ parts.dropLast, p.kind ≠ .text)
    (stored : storeParts parts Builder.empty = .ok () b) :
    ∃ s, loadParts (parts.map (·.kind)) b.build.slice = .ok parts s ∧
      s.bitsLeft = 0 ∧ s.refsLeft = 0 :=
  ⟨b.sliceFrom b, loadParts_sliceFrom textLast stored, Nat.sub_self _, Nat.sub_self _⟩

/-- One part of every kind, with a text that has to go on in a chain. -/
def mixedParts : List Part :=
  [⟨.bit, true⟩, ⟨.u64 3, (5 : UInt64)⟩, ⟨.i64 8, (-3 : Int64)⟩, ⟨.uint 80, (2 ^ 70 : Nat)⟩,
    ⟨.int 100, (-5 : Int)⟩, ⟨.varUInt 16, (1000000000 : Nat)⟩, ⟨.address, (none : Option Address)⟩,
    ⟨.standardAddress, Address.zero⟩, ⟨.ref, Cell.empty⟩, ⟨.maybeRef, some Cell.empty⟩,
    ⟨.text, "A text that goes on in a chain, as there is no room for all of it in the cell."⟩]

/-- The parts of all kinds can be stored in a row, and are loaded again. -/
theorem loadParts_build_mixedParts :
    (∀ p ∈ mixedParts.dropLast, p.kind ≠ .text) ∧
      ∃ b s, storeParts mixedParts Builder.empty = .ok () b ∧
        loadParts (mixedParts.map (·.kind)) b.build.slice = .ok mixedParts s ∧
        s.bitsLeft = 0 ∧ s.refsLeft = 0 := by
  have textLast : ∀ p ∈ mixedParts.dropLast, p.kind ≠ .text := by decide
  have succeeds : (match storeParts mixedParts Builder.empty with
    | .ok _ _ => true
    | .error _ _ => false) = true := by decide +kernel
  cases stored : storeParts mixedParts Builder.empty with
  | ok u b =>
    obtain ⟨s, loaded, done⟩ := loadParts_build textLast stored
    exact ⟨textLast, b, s, rfl, loaded, done⟩
  | error e b =>
    rw [stored] at succeeds
    contradiction

end ContractAbi
