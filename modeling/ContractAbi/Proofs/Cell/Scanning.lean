import ContractAbi.Cell.Scan
import ContractAbi.Proofs.Cell.RoundTrip
import ContractAbi.Proofs.Cell.Words

/-!
# Scans follow loads

A scan gives what the load of its name gives, and where the load is refused it is back where it
began (`Follows`), although it has only the position among the bits to put back. That suffices,
since nothing is refused behind a reference. A composite that is about to be put back need not be
there yet when it is refused (`Tracks`).
-/

namespace ContractAbi

variable {α β γ δ : Type} {s : Slice}

namespace Cell

/-- Every bit of a cell stands in one of its bytes. -/
theorem exists_byte {c : Cell} {i : Nat} {bit : Bool} (at? : c.bits[i]? = some bit) :
    ∃ byte, c.data[i / 8]? = some byte ∧ Bits.isSet byte (i % 8) = bit := by
  have inside : i < c.bits.length := (List.getElem?_eq_some_iff.mp at?).1
  have padded : i < (Bits.padded c.bits).length := by
    rw [Bits.length_padded]
    omega
  have bits := Bits.getElem?_ofBytes c.data i
  rw [data, Bits.ofBytes_pack, Bits.getElem?_padded c.bits padded, at?] at bits
  exact Option.map_eq_some_iff.mp bits.symm

end Cell

namespace Scan

theorem needBits_bind_apply {n : Nat} {f : Unit → Scan α} :
    (needBits n >>= f) s =
      if n > s.bitsLeft then .error (.refused (.underflow n s.bitsLeft)) s else f () s := by
  have check : needBits n s =
      if n > s.bitsLeft then .error (.refused (.underflow n s.bitsLeft)) s else .ok () s := by
    change (if n > s.bitsLeft then fail _ else Pure.pure () : Scan Unit) s = _
    split <;> rfl
  change EStateM.bind (needBits n) f s = _
  unfold EStateM.bind
  rw [check]
  by_cases short : n > s.bitsLeft
  · rw [if_pos short, if_pos short]
  · rw [if_neg short, if_neg short]

/-- The byte in which a bit stands is found. -/
theorem exists_byte_eq_ok {index : Nat} {bit : Bool} (at? : s.cell.bit? index = some bit) :
    ∃ b, byte (index / 8) s = .ok b s ∧ Bits.isSet b (index % 8) = bit := by
  obtain ⟨b, found, isSet⟩ := Cell.exists_byte at?
  refine ⟨b, ?_, isSet⟩
  unfold byte
  rw [bind_eq_ok]
  refine ⟨s, s, rfl, ?_⟩
  rw [found]
  rfl

theorem takeBit_eq_ok {bit : Bool} {more : List Bool} (rest : s.rest = bit :: more) :
    takeBit s = .ok bit (s.advance 1 0) := by
  have next : s.cell.bit? s.bitPos = some bit := by
    rw [s.bit?_bitPos, rest]
    rfl
  obtain ⟨b, read, rfl⟩ := exists_byte_eq_ok next
  change (byte (s.bitPos / 8) >>= _) s = _
  rw [bind_eq_ok]
  exact ⟨b, s, read, rfl⟩

/-- The bits that are left are taken in order. -/
theorem takeBits_eq_ok {add : α → Bool → α} {value : α} {bits : List Bool}
    (starts : bits <+: s.rest) :
    takeBits add bits.length value s = .ok (bits.foldl add value) (s.advance bits.length 0) := by
  induction bits generalizing s value with
  | nil => rfl
  | cons bit bits ih =>
    obtain ⟨more, rest⟩ := starts
    have behind : bits <+: (s.advance 1 0).rest := by
      rw [Slice.rest_advance, ← rest]
      exact List.prefix_append ..
    rw [List.length_cons, takeBits, bind_eq_ok]
    refine ⟨bit, s.advance 1 0, takeBit_eq_ok rest.symm, ?_⟩
    rw [ih behind, Slice.advance_advance, Nat.add_comm 1, List.foldl_cons]

end Scan

/-- The scan takes so many bits if they are left, and makes of them what the function does. -/
def ScansBits (width : Nat) (f : List Bool → α) (scan : Scan α) : Prop :=
  ∀ s : Slice, scan s =
    if width > s.bitsLeft then .error (.refused (.underflow width s.bitsLeft)) s
    else .ok (f (s.rest.take width)) (s.advance width 0)

namespace ScansBits

variable {width : Nat} {f : List Bool → α} {scan : Scan α}

theorem eq_ok (scans : ScansBits width f scan) (room : width ≤ s.bitsLeft) :
    scan s = .ok (f (s.rest.take width)) (s.advance width 0) := by
  rw [scans s, if_neg (by omega)]

theorem eq_error (scans : ScansBits width f scan) (short : s.bitsLeft < width) :
    scan s = .error (.refused (.underflow width s.bitsLeft)) s := by
  rw [scans s, if_pos short]

theorem length_take {n : Nat} (room : n ≤ s.bitsLeft) : (s.rest.take n).length = n := by
  rw [List.length_take, ← Slice.bitsLeft_eq]
  omega

/-- Taking bits one by one and adding them up, where the sum is known. -/
theorem fold {add : α → Bool → α} {start : α} (value : ∀ bits, bits.foldl add start = f bits) :
    ScansBits width f (do
      Scan.needBits width
      Scan.takeBits add width start) := by
  intro s
  rw [Scan.needBits_bind_apply]
  by_cases short : width > s.bitsLeft
  · rw [if_pos short, if_pos short]
  · have length := length_take (Nat.le_of_not_lt short)
    have taken : Scan.takeBits add _ start s = _ :=
      Scan.takeBits_eq_ok (List.take_prefix width s.rest)
    rw [length, value] at taken
    rw [if_neg short, if_neg short, taken]

theorem map {g : α → β} {h : List Bool → β} (scans : ScansBits width f scan)
    (value : ∀ bits, bits.length = width → g (f bits) = h bits) :
    ScansBits width h (do return g (← scan)) := by
  intro s
  change EStateM.bind scan (fun v => pure (g v)) s = _
  unfold EStateM.bind
  by_cases short : width > s.bitsLeft
  · rw [scans.eq_error short, if_pos short]
  · have room : width ≤ s.bitsLeft := Nat.le_of_not_lt short
    rw [scans.eq_ok room, if_neg short, ← value _ (length_take room)]
    rfl

end ScansBits

namespace Scan

theorem scansBits_bit : ScansBits 1 (· == [true]) bit := by
  intro s
  unfold bit
  rw [needBits_bind_apply]
  by_cases short : 1 > s.bitsLeft
  · rw [if_pos short, if_pos short]
  · rw [if_neg short, if_neg short]
    obtain ⟨next, more, rest⟩ : ∃ next more, s.rest = next :: more := by
      rw [Slice.bitsLeft_eq] at short
      exact List.exists_cons_of_length_pos (by omega)
    rw [takeBit_eq_ok rest, rest]
    cases next <;> rfl

theorem scansBits_u64 {width : Nat} (narrow : width ≤ 64) :
    ScansBits width (fun bits => UInt64.ofNat (Bits.toNat bits)) (u64 width) := by
  unfold u64
  rw [if_neg (by omega)]
  exact ScansBits.fold Bits.foldl_shift_or

theorem scansBits_i64 {width : Nat} (positive : width ≠ 0) (narrow : width ≤ 64) :
    ScansBits width (fun bits => Int64.ofInt (Bits.toInt bits)) (i64 width) := by
  unfold i64
  rw [if_neg (by omega)]
  apply (scansBits_u64 narrow).map
  intro bits length
  subst length
  exact Bits.shift_back positive narrow

theorem scansBits_uint (width : Nat) : ScansBits width Bits.toNat (uint width) :=
  ScansBits.fold Bits.foldl_shift_add

theorem scansBits_int {width : Nat} (positive : width ≠ 0) :
    ScansBits width Bits.toInt (int width) := by
  unfold int
  rw [if_neg positive]
  apply (scansBits_uint width).map
  intro bits length
  subst length
  exact Bits.sub_limit_of_testBit positive

end Scan

/-- From this slice on the scan gives what the load gives: the same value, behind the same bits and
at most so many references, or the same error, and then both are where they began. -/
def Follows (refs : Nat) (s : Slice) (scan : Scan α) (load : Load α) : Prop :=
  (∃ v n k, n ≤ s.bitsLeft ∧ k ≤ refs ∧
    scan s = .ok v (s.advance n k) ∧ load s = .ok v (s.advance n k)) ∨
  ∃ e, scan s = .error (.refused e) s ∧ load s = .error e s

/-- From this slice on the scan gives what the load gives, without references: the same value,
behind the same bits, or the same error, and then the scan is at a slice of this kind. -/
def Tracks (back : Slice → Prop) (s : Slice) (scan : Scan α) (load : Load α) : Prop :=
  (∃ v n, n ≤ s.bitsLeft ∧ scan s = .ok v (s.advance n 0) ∧ load s = .ok v (s.advance n 0)) ∨
  ∃ e t u, back t ∧ scan s = .error (.refused e) t ∧ load s = .error e u

namespace Follows

variable {refs : Nat} {scan : Scan α} {load : Load α}

theorem refused {p : Prop} [Decidable p] {e : CellError} (met : p) :
    Follows refs s (if p then Scan.fail e else scan) (if p then throw e else load) := by
  rw [if_pos met, if_pos met]
  exact .inr ⟨e, rfl, rfl⟩

theorem of_scansBits {width : Nat} {f : List Bool → α} (scans : ScansBits width f scan) :
    Follows refs s scan (do return f (← Load.bits width)) := by
  by_cases room : width ≤ s.bitsLeft
  · refine .inl ⟨f (s.rest.take width), width, 0, room, Nat.zero_le _, scans.eq_ok room, ?_⟩
    rw [bind_eq_ok]
    exact ⟨_, _, Load.bits_eq_ok room, rfl⟩
  · have short : s.bitsLeft < width := Nat.lt_of_not_le room
    exact .inr ⟨.underflow width s.bitsLeft, scans.eq_error short,
      bind_eq_error.mpr (.inl (Load.bits_eq_error short))⟩

/-- What a load comes to is known from the scan that follows it. -/
theorem load_eq_ok {v : α} {t : Slice} (follows : Follows refs s scan load)
    (scanned : scan s = .ok v t) : load s = .ok v t := by
  obtain ⟨w, n, k, _, _, found, loaded⟩ | ⟨e, failed, _⟩ := follows
  · rw [scanned] at found
    obtain ⟨rfl, rfl⟩ := EStateM.Result.ok.inj found
    exact loaded
  · rw [scanned] at failed
    cases failed

/-- A load that is put back as a whole is followed by a scan that gets back by itself. -/
theorem atomic (tracks : Tracks (· = s) s scan load) : Follows refs s scan (Load.atomic load) := by
  obtain ⟨v, n, room, scanned, loaded⟩ | ⟨e, t, u, rfl, scanned, loaded⟩ := tracks
  · refine .inl ⟨v, n, 0, room, Nat.zero_le _, scanned, ?_⟩
    rw [Load.atomic, loaded]
  · exact .inr ⟨e, scanned, Load.atomic_eq_error loaded⟩

end Follows

namespace Tracks

variable {back : Slice → Prop} {scan : Scan α} {load : Load α} {x : Scan γ} {y : Load δ}
  {f : γ → Scan α} {g : δ → Load α}

theorem of_follows (follows : Follows 0 s scan load) (here : back s) : Tracks back s scan load := by
  obtain ⟨v, n, k, room, few, scanned, loaded⟩ | ⟨e, scanned, loaded⟩ := follows
  · obtain rfl : k = 0 := Nat.le_zero.mp few
    exact .inl ⟨v, n, room, scanned, loaded⟩
  · exact .inr ⟨e, s, s, here, scanned, loaded⟩

theorem pure (v : α) : Tracks back s (Pure.pure v) (Pure.pure v) :=
  .inl ⟨v, 0, Nat.zero_le _, rfl, rfl⟩

theorem fail (e : CellError) (here : back s) :
    Tracks back s (Scan.fail e : Scan α) (throw e : Load α) :=
  .inr ⟨e, s, s, here, rfl, rfl⟩

/-- Both go on behind the same bits, with what they know of them. -/
theorem behind {n : Nat} {v : γ} {w : δ} (room : n ≤ s.bitsLeft)
    (scanned : x s = .ok v (s.advance n 0)) (loaded : y s = .ok w (s.advance n 0))
    (rest : Tracks back (s.advance n 0) (f v) (g w)) : Tracks back s (x >>= f) (y >>= g) := by
  have scanOn : (x >>= f) s = f v (s.advance n 0) := by
    change EStateM.bind x f s = _
    simp only [EStateM.bind, scanned]
  have loadOn : (y >>= g) s = g w (s.advance n 0) := by
    change EStateM.bind y g s = _
    simp only [EStateM.bind, loaded]
  unfold Tracks
  rw [scanOn, loadOn]
  obtain ⟨a, m, more, scanned, loaded⟩ | ends := rest
  · rw [Slice.advance_advance] at scanned loaded
    rw [Slice.bitsLeft_eq, Slice.rest_advance, List.length_drop, ← Slice.bitsLeft_eq] at more
    exact .inl ⟨a, n + m, by omega, scanned, loaded⟩
  · exact .inr ends

theorem refused {e : CellError} {t u : Slice} (scanned : x s = .error (.refused e) t)
    (loaded : y s = .error e u) (there : back t) : Tracks back s (x >>= f) (y >>= g) :=
  .inr ⟨e, t, u, there, bind_eq_error.mpr (.inl scanned), bind_eq_error.mpr (.inl loaded)⟩

/-- A scan may look where it stands first. -/
theorem get {others : Slice → Scan α} (rest : Tracks back s (others s) load) :
    Tracks back s (MonadState.get >>= others) load := rest

theorem bind {next : γ → Scan α} {others : γ → Load α} {x : Scan γ} {y : Load γ}
    (follows : Follows 0 s x y) (here : back s)
    (rest : ∀ v n, n ≤ s.bitsLeft → Tracks back (s.advance n 0) (next v) (others v)) :
    Tracks back s (x >>= next) (y >>= others) := by
  obtain ⟨v, n, k, room, few, scanned, loaded⟩ | ⟨e, scanned, loaded⟩ := follows
  · obtain rfl : k = 0 := Nat.le_zero.mp few
    exact behind room scanned loaded (rest v n room)
  · exact refused scanned loaded here

/-- Both take so many bits first, or are refused at once. -/
theorem bits {width : Nat} {h : List Bool → γ} {others : List Bool → Load α}
    (scans : ScansBits width h x) (here : back s)
    (rest : ∀ bits, bits.length = width →
      Tracks back (s.advance width 0) (f (h bits)) (others bits)) :
    Tracks back s (x >>= f) (Load.bits width >>= others) := by
  by_cases room : width ≤ s.bitsLeft
  · exact behind room (scans.eq_ok room) (Load.bits_eq_ok room)
      (rest _ (ScansBits.length_take room))
  · have short : s.bitsLeft < width := Nat.lt_of_not_le room
    exact refused (scans.eq_error short) (Load.bits_eq_error short) here

theorem needBits {n : Nat} {rest : Unit → Scan α} {others : Unit → Load α} (here : back s)
    (enough : n ≤ s.bitsLeft → Tracks back s (rest ()) (others ())) :
    Tracks back s (Scan.needBits n >>= rest) (Load.needBits n >>= others) := by
  unfold Tracks
  rw [Scan.needBits_bind_apply, Load.needBits_bind_apply]
  by_cases short : n > s.bitsLeft
  · rw [if_pos short, if_pos short]
    exact .inr ⟨_, s, s, here, rfl, rfl⟩
  · rw [if_neg short, if_neg short]
    exact enough (Nat.le_of_not_lt short)

theorem rewinding {bitPos : Nat} (tracks : Tracks (fun t => back { t with bitPos }) s scan load) :
    Tracks back s (Scan.rewinding bitPos scan) load := by
  unfold Tracks Scan.rewinding
  obtain ⟨v, n, room, scanned, loaded⟩ | ⟨e, t, u, there, scanned, loaded⟩ := tracks
  · refine .inl ⟨v, n, room, ?_, loaded⟩
    rw [scanned]
  · refine .inr ⟨e, _, u, there, ?_, loaded⟩
    rw [scanned]

theorem rewind {bitPos : Nat} (e : CellError) (there : back { s with bitPos }) :
    Tracks back s (Scan.rewind bitPos >>= fun _ => Scan.fail e : Scan α) (throw e : Load α) :=
  .inr ⟨e, _, s, there, rfl, rfl⟩

end Tracks

namespace Scan

variable {refs : Nat} (s)

theorem follows_bit : Follows refs s bit Load.bit := .of_scansBits scansBits_bit

theorem follows_u64 (width : Nat) : Follows refs s (u64 width) (Load.u64 width) := by
  by_cases wide : width > 64
  · exact .refused wide
  · unfold Load.u64
    rw [if_neg wide]
    exact .of_scansBits (scansBits_u64 (Nat.le_of_not_lt wide))

theorem follows_i64 (width : Nat) : Follows refs s (i64 width) (Load.i64 width) := by
  by_cases invalid : width = 0 ∨ width > 64
  · exact .refused invalid
  · unfold Load.i64
    rw [if_neg invalid]
    exact .of_scansBits (scansBits_i64 (by omega) (by omega))

theorem follows_uint (width : Nat) : Follows refs s (uint width) (Load.uint width) :=
  .of_scansBits (scansBits_uint width)

theorem follows_int (width : Nat) : Follows refs s (int width) (Load.int width) := by
  by_cases zero : width = 0
  · exact .refused zero
  · unfold Load.int
    rw [if_neg zero]
    exact .of_scansBits (scansBits_int zero)

theorem follows_varUInt (bound : Nat) : Follows refs s (varUInt bound) (Load.varUInt bound) := by
  by_cases zero : bound = 0
  · exact .refused zero
  · unfold varUInt Load.varUInt
    rw [if_neg zero, if_neg zero]
    apply Follows.atomic
    apply Tracks.get
    refine Tracks.bind (follows_u64 s _) rfl ?_
    intro word n _
    by_cases long : word.toNat ≥ bound
    · simp only [if_pos long]
      exact Tracks.rewind _ rfl
    · simp only [if_neg long]
      apply Tracks.rewinding
      exact .of_follows (follows_uint _ _) rfl

variable {s}

/-- Where there are bits for them, bytes are read eight bits at a time. -/
theorem bytes_eq_ok {n : Nat} (room : 8 * n ≤ s.bitsLeft) :
    bytes n s = .ok (Bits.pack (s.rest.take (8 * n))) (s.advance (8 * n) 0) := by
  induction n generalizing s with
  | zero =>
    rw [Nat.mul_zero, List.take_zero, Bits.pack]
    rfl
  | succ n ih =>
    have first : 8 ≤ s.bitsLeft := by omega
    have others : 8 * n ≤ (s.advance 8 0).bitsLeft := by
      rw [Slice.bitsLeft_eq, Slice.rest_advance, List.length_drop, ← Slice.bitsLeft_eq]
      omega
    have split : s.rest.take (8 * (n + 1)) = s.rest.take 8 ++ (s.rest.drop 8).take (8 * n) := by
      rw [← List.take_add, Nat.mul_succ, Nat.add_comm]
    rw [bytes, bind_eq_ok]
    refine ⟨_, _, (scansBits_u64 (by decide)).eq_ok first, bind_eq_ok.mpr ⟨_, _, ih others, ?_⟩⟩
    rw [split, Bits.pack_append _ (ScansBits.length_take first), Slice.rest_advance,
      Slice.advance_advance, UInt64.toUInt8_ofNat', Nat.mul_succ, Nat.add_comm]
    rfl

/-- With enough bits in front of it, the rest of an address is read to its end. -/
theorem tracks_addressBody {back : Slice → Prop} (here : back s) :
    Tracks back s (do
      needBits (Address.bitLength - 3)
      let workchain ← i64 8
      let hash ← bytes 32
      match Address.ofHash? workchain.toInt8 hash with
      | some a => return some a
      | none => fail .invalidAddress) (do return some (← Load.addressBody)) := by
  unfold Load.addressBody
  simp only [LawfulMonad.bind_assoc]
  apply Tracks.needBits here
  intro enough
  have room : 264 ≤ s.bitsLeft := enough
  have number : 8 ≤ s.bitsLeft := by omega
  have hash : 8 * 32 ≤ (s.advance 8 0).bitsLeft := by
    rw [Slice.bitsLeft_eq, Slice.rest_advance, List.length_drop, ← Slice.bitsLeft_eq]
    omega
  have scans : ScansBits 8 _ (i64 8) := scansBits_i64 (by decide) (by decide)
  have scanned := scans.eq_ok number
  have follows : Follows 0 s (i64 8) (Load.i64 8) := follows_i64 s 8
  refine Tracks.behind number scanned (follows.load_eq_ok scanned) ?_
  refine Tracks.behind hash (bytes_eq_ok hash) (Load.bits_eq_ok hash) ?_
  -- The bytes of a hash are as many as an address takes.
  have length : (Bits.pack ((s.advance 8 0).rest.take (8 * 32))).length = 32 := by
    rw [Bits.length_pack, ScansBits.length_take hash]
  simp only [Address.ofHash?, dif_pos length]
  exact Tracks.pure _

variable (s)

theorem follows_address : Follows refs s address Load.address := by
  apply Follows.atomic
  apply Tracks.get
  apply Tracks.rewinding
  unfold readAddress
  refine Tracks.bits (scansBits_u64 (by decide)) rfl ?_
  intro bits length
  match bits, length with
  | [false, false], _ => exact Tracks.pure none
  | [true, false], _ =>
    refine Tracks.bind (follows_bit _) rfl ?_
    intro anycast n _
    cases anycast with
    | true => exact Tracks.fail _ rfl
    | false => exact tracks_addressBody rfl
  | [false, true], _ => exact Tracks.fail _ rfl
  | [true, true], _ => exact Tracks.fail _ rfl

theorem follows_standardAddress : Follows refs s standardAddress Load.standardAddress := by
  apply Follows.atomic
  apply Tracks.get
  refine Tracks.bind (follows_address s) rfl ?_
  intro found n _
  cases found with
  | none => exact Tracks.rewind _ rfl
  | some a => exact Tracks.pure a

/-- A reference that is left is read, and it is the only thing that is moved over. -/
theorem ref_eq_ok {c : Cell} {more : List Cell} (restRefs : s.restRefs = c :: more) :
    ref s = .ok c (s.advance 0 1) ∧ Load.ref s = .ok c (s.advance 0 1) := by
  have next : s.cell.ref? s.refPos = some c := by
    rw [Slice.ref?_refPos, restRefs]
    rfl
  constructor
  · unfold ref
    rw [bind_eq_ok]
    refine ⟨s, s, rfl, ?_⟩
    rw [next]
    rfl
  · refine Load.ref_eq_ok_iff.mpr ⟨?_, rfl⟩
    rw [restRefs]
    rfl

/-- A reference is read by the scan where the load finds one. -/
theorem follows_ref : Follows s.refsLeft s ref Load.ref := by
  cases restRefs : s.restRefs with
  | nil =>
    have next : s.cell.ref? s.refPos = none := by
      rw [Slice.ref?_refPos, restRefs]
      rfl
    refine .inr ⟨.refUnderflow, bind_eq_error.mpr (.inr ⟨s, s, rfl, ?_⟩),
      bind_eq_error.mpr (.inr ⟨s, s, rfl, ?_⟩)⟩
    · rw [next]
      rfl
    · rw [next]
      rfl
  | cons c more =>
    obtain ⟨scanned, loaded⟩ := ref_eq_ok s restRefs
    refine .inl ⟨c, 0, 1, Nat.zero_le _, ?_, scanned, loaded⟩
    rw [Slice.refsLeft_eq, restRefs]
    exact Nat.succ_pos _

/-- A bit is looked at wherever it stands. -/
theorem peek_apply (index : Nat) : peek index s = .ok (s.cell.bit? index) s := by
  change (if index ≥ s.cell.bitLength then _ else byte (index / 8) >>= _ : Scan _) s = _
  cases at? : s.cell.bit? index with
  | none =>
    have outside : index ≥ s.cell.bitLength := List.getElem?_eq_none_iff.mp at?
    rw [if_pos outside]
    rfl
  | some bit =>
    have inside : index < s.cell.bitLength := (List.getElem?_eq_some_iff.mp at?).1
    obtain ⟨b, read, rfl⟩ := exists_byte_eq_ok at?
    rw [if_neg (Nat.not_le_of_lt inside), bind_eq_ok]
    exact ⟨b, s, read, rfl⟩

variable {s}

theorem bitsLeft_pos {bit : Bool} {more : List Bool} (rest : s.rest = bit :: more) :
    1 ≤ s.bitsLeft := by
  rw [Slice.bitsLeft_eq, rest, List.length_cons]
  omega

theorem maybeRef_apply {bit : Bool} {more : List Bool} (rest : s.rest = bit :: more) :
    maybeRef s =
      (if some bit = some true ∧ s.refsLeft = 0 then fail .refUnderflow
      else do if (← takeBit) then return some (← ref) else return none : Scan _) s := by
  have room : ¬ 1 > s.bitsLeft := Nat.not_lt.mpr (bitsLeft_pos rest)
  unfold maybeRef
  rw [needBits_bind_apply, if_neg room]
  change EStateM.bind (peek s.bitPos) _ s = _
  simp only [EStateM.bind, peek_apply, s.bit?_bitPos, rest, List.head?_cons]

theorem follows_maybeRef_short (rest : s.rest = []) :
    Follows refs s maybeRef Load.maybeRef := by
  have short : 1 > s.bitsLeft := by
    rw [Slice.bitsLeft_eq, rest]
    exact Nat.zero_lt_one
  refine .inr ⟨.underflow 1 s.bitsLeft, ?_, ?_⟩
  · unfold maybeRef
    rw [needBits_bind_apply, if_pos short]
  · unfold Load.maybeRef
    rw [Load.needBits_bind_apply, if_pos short]

theorem follows_maybeRef_absent {more : List Bool} (rest : s.rest = false :: more) :
    Follows refs s maybeRef Load.maybeRef := by
  refine .inl ⟨none, 1, 0, bitsLeft_pos rest, Nat.zero_le _, ?_, ?_⟩
  · rw [maybeRef_apply rest, if_neg (by simp), bind_eq_ok]
    exact ⟨false, _, takeBit_eq_ok rest, rfl⟩
  · apply Load.reads_maybeRef_none
    rw [Slice.Starts, rest]
    simp

/-- Where the bit is set and no reference is left, both are refused before the bit is taken. -/
theorem follows_maybeRef_bare {more : List Bool} (rest : s.rest = true :: more)
    (bare : s.refsLeft = 0) : Follows refs s maybeRef Load.maybeRef := by
  refine .inr ⟨.refUnderflow, ?_, ?_⟩
  · rw [maybeRef_apply rest, if_pos ⟨rfl, bare⟩]
    rfl
  · have next : s.cell.bit? s.bitPos = some true := by
      rw [Slice.bit?_bitPos, rest]
      rfl
    unfold Load.maybeRef
    rw [Load.needBits_bind_apply, if_neg (Nat.not_lt.mpr (bitsLeft_pos rest))]
    change (if _ then _ else _ : Load _) s = _
    rw [if_pos ⟨next, bare⟩]
    rfl

theorem follows_maybeRef_present {more : List Bool} {c : Cell} {others : List Cell}
    (rest : s.rest = true :: more) (restRefs : s.restRefs = c :: others) :
    Follows s.refsLeft s maybeRef Load.maybeRef := by
  have held : s.refsLeft ≠ 0 := by
    rw [Slice.refsLeft_eq, restRefs]
    exact Nat.succ_ne_zero _
  refine .inl ⟨some c, 1, 1, bitsLeft_pos rest, Nat.one_le_iff_ne_zero.mpr held, ?_, ?_⟩
  · rw [maybeRef_apply rest, if_neg fun bare => held bare.2, bind_eq_ok]
    have behind : (s.advance 1 0).restRefs = c :: others := by
      rw [Slice.restRefs_advance, restRefs]
      rfl
    refine ⟨true, _, takeBit_eq_ok rest, bind_eq_ok.mpr ⟨c, _, (ref_eq_ok _ behind).1, ?_⟩⟩
    rw [Slice.advance_advance]
    rfl
  · apply Load.reads_maybeRef_some
    rw [Slice.Starts, rest, restRefs]
    simp

variable (s)

/-- An optional reference, in each of the three ways in which its bit can stand. -/
theorem follows_maybeRef : Follows s.refsLeft s maybeRef Load.maybeRef := by
  cases rest : s.rest with
  | nil => exact follows_maybeRef_short rest
  | cons bit more =>
    cases bit with
    | false => exact follows_maybeRef_absent rest
    | true =>
      cases restRefs : s.restRefs with
      | nil =>
        have bare : s.refsLeft = 0 := by
          rw [Slice.refsLeft_eq, restRefs]
          rfl
        exact follows_maybeRef_bare rest bare
      | cons c others => exact follows_maybeRef_present rest restRefs

end Scan

end ContractAbi
