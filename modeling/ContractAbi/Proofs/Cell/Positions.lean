import ContractAbi.Proofs.Cell.Scanning

/-!
# Positions in a cell

However a cell is read, short of texts, both positions stay inside of it and never go back. A load
that is refused leaves them where they are, and to read a cell bit by bit means to look at no other
bytes than its own.
-/

namespace ContractAbi

namespace PartKind

/-- The scan for the kind, except for a text, which can be refused when all of it has been read. -/
def scan : (kind : PartKind) → kind ≠ text → Scan kind.Value
  | bit, _ => Scan.bit
  | u64 width, _ => Scan.u64 width
  | i64 width, _ => Scan.i64 width
  | uint width, _ => Scan.uint width
  | int width, _ => Scan.int width
  | varUInt bound, _ => Scan.varUInt bound
  | address, _ => Scan.address
  | standardAddress, _ => Scan.standardAddress
  | ref, _ => Scan.ref
  | maybeRef, _ => Scan.maybeRef
  | text, noText => absurd rfl noText

theorem follows (kind : PartKind) (noText : kind ≠ text) (s : Slice) :
    Follows s.refsLeft s (kind.scan noText) kind.load := by
  cases kind with
  | bit => exact Scan.follows_bit s
  | u64 width => exact Scan.follows_u64 s width
  | i64 width => exact Scan.follows_i64 s width
  | uint width => exact Scan.follows_uint s width
  | int width => exact Scan.follows_int s width
  | varUInt bound => exact Scan.follows_varUInt s bound
  | address => exact Scan.follows_address s
  | standardAddress => exact Scan.follows_standardAddress s
  | ref => exact Scan.follows_ref s
  | maybeRef => exact Scan.follows_maybeRef s
  | text => exact absurd rfl noText

end PartKind

namespace Slice

/-- Both positions are in the cell or at its end. -/
def Inside (s : Slice) : Prop :=
  s.bitPos ≤ s.cell.bits.length ∧ s.refPos ≤ s.cell.refs.length

/-- The other slice has read the same cell at least as far, and not past its end. -/
structure Ahead (s t : Slice) : Prop where
  cell_eq : t.cell = s.cell
  bitPos_le : s.bitPos ≤ t.bitPos
  refPos_le : s.refPos ≤ t.refPos
  inside : t.Inside

variable {s t u : Slice}

theorem Inside.ahead (inside : s.Inside) : s.Ahead s := ⟨rfl, Nat.le_refl _, Nat.le_refl _, inside⟩

theorem Ahead.trans (first : s.Ahead t) (second : t.Ahead u) : s.Ahead u :=
  ⟨second.cell_eq.trans first.cell_eq, Nat.le_trans first.bitPos_le second.bitPos_le,
    Nat.le_trans first.refPos_le second.refPos_le, second.inside⟩

theorem Inside.advance {n k : Nat} (inside : s.Inside) (bits : n ≤ s.bitsLeft)
    (refs : k ≤ s.refsLeft) : s.Ahead (s.advance n k) := by
  obtain ⟨bitsInside, refsInside⟩ := inside
  unfold bitsLeft at bits
  unfold refsLeft at refs
  refine ⟨rfl, Nat.le_add_right _ _, Nat.le_add_right _ _, ?_, ?_⟩
  · change s.bitPos + n ≤ s.cell.bits.length
    omega
  · change s.refPos + k ≤ s.cell.refs.length
    omega

/-- What a load, and the scan of the same kind, do from a slice on. -/
structure Safe (s : Slice) (kind : PartKind) (noText : kind ≠ .text) : Prop where
  refused : ∀ e t, kind.load s = .error e t → t = s
  loaded : ∀ v t, kind.load s = .ok v t → s.Ahead t
  within : ∀ index t, kind.scan noText s ≠ .error (.outside index) t
  scan_eq_error : ∀ e t, kind.scan noText s = .error (.refused e) t ↔ kind.load s = .error e t
  scan_eq_ok : ∀ v t, kind.scan noText s = .ok v t ↔ kind.load s = .ok v t

/-- Reading bit by bit from inside a cell never looks outside of it. -/
theorem Inside.safe (inside : s.Inside) (kind : PartKind) (noText : kind ≠ .text) :
    s.Safe kind noText := by
  obtain ⟨v, n, k, bits, refs, scanned, loaded⟩ | ⟨e, scanned, failed⟩ := kind.follows noText s
  · have ahead := inside.advance bits refs
    exact
      { refused := by simp [loaded]
        loaded := by simpa [loaded] using ahead
        within := by simp [scanned]
        scan_eq_error := by simp [scanned, loaded]
        scan_eq_ok := by simp [scanned, loaded] }
  · exact
      { refused := by simp [failed]
        loaded := by simp [failed]
        within := by simp [scanned]
        scan_eq_error := by simp [scanned, failed]
        scan_eq_ok := by simp [scanned, failed] }

/-- The slice behind a load, refused or not. -/
def after (s : Slice) (kind : PartKind) : Slice :=
  match kind.load s with
  | .ok _ t => t
  | .error _ t => t

/-- The reader stays inside of the cell and never moves back. -/
theorem Inside.after (inside : s.Inside) (kind : PartKind) (noText : kind ≠ .text) :
    s.Ahead (s.after kind) := by
  have safe := inside.safe kind noText
  unfold Slice.after
  cases result : kind.load s with
  | ok v t => exact safe.loaded v t result
  | error e t =>
    rw [safe.refused e t result]
    exact inside.ahead

end Slice

namespace Cell

/-- How far a cell has been read after loads that are tried one after the other. -/
def read (c : Cell) (kinds : List { kind : PartKind // kind ≠ .text }) : Slice :=
  kinds.foldl (fun s kind => s.after kind.val) c.slice

/-- After any loads the positions are inside the cell, and any further load moves them forward
inside of it or, if it is refused, not at all. Read bit by bit, it comes to the same, and looks for
no byte that the cell does not have. -/
theorem read_safe (c : Cell) (kinds : List { kind : PartKind // kind ≠ .text }) :
    c.slice.Ahead (c.read kinds) ∧
      ∀ kind : { kind : PartKind // kind ≠ .text }, (c.read kinds).Safe kind kind.property := by
  have run : ∀ s : Slice, s.Inside →
      s.Ahead (kinds.foldl (fun s kind => s.after kind.val) s) := by
    induction kinds with
    | nil => exact fun s inside => inside.ahead
    | cons kind kinds ih =>
      intro s inside
      have ahead := inside.after kind kind.property
      exact ahead.trans (ih _ ahead.inside)
  have ahead := run c.slice ⟨Nat.zero_le _, Nat.zero_le _⟩
  exact ⟨ahead, fun kind => ahead.inside.safe kind kind.property⟩

end Cell

end ContractAbi
