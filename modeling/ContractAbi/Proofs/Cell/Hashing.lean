import Mathlib.Logic.Relation
import ContractAbi.Proofs.Cell.Built

/-!
# What the hash of a cell stands for

The bytes that are hashed for a cell tell its data and the depths and hashes of its references
apart, though nothing separates them: the first byte counts the references, the second one gives the
length of the data and whether the last byte is full, and a one marks the end of the bits in a byte
that is not (`eq_of_hashed_eq`). So two cells of one hash are the same tree, unless the hash
function has given two different byte sequences of theirs the same value (`binding_of_built`).
-/

namespace ContractAbi.Cell

open Bits (pack padded)

variable {a b : Cell}

theorem digests_eq_map (cs : List Cell) : digests cs = cs.map digest := by
  induction cs with
  | nil => rfl
  | cons c cs ih => rw [digests, ih, List.map_cons]

/-- The bytes that are hashed for the cell. -/
def hashed (c : Cell) : List UInt8 := representation c.bits (digests c.refs)

/-- The hash of a cell is that of the bytes that are hashed for it. -/
theorem hash_eq (c : Cell) : c.hash = Sha256.hash c.hashed := by
  obtain ⟨bits, refs⟩ := c
  rw [hash, digest, digestOver, hashed]

theorem length_hash (c : Cell) : c.hash.length = 32 := by
  rw [hash_eq, Sha256.length_hash]

/-- The two bytes of a depth, the high one first. -/
def depthBytes (d : UInt16) : List UInt8 := [UInt8.ofNat (d.toNat / 256), UInt8.ofNat d.toNat]

/-- Two bytes are enough for a depth. -/
theorem depthBytes_injective {d e : UInt16} (same : depthBytes d = depthBytes e) : d = e := by
  have small := d.toNat_lt
  have small' := e.toNat_lt
  obtain ⟨high, low⟩ : UInt8.ofNat (d.toNat / 256) = UInt8.ofNat (e.toNat / 256) ∧
      UInt8.ofNat d.toNat = UInt8.ofNat e.toNat := by
    simpa [depthBytes] using same
  rw [← UInt8.toNat_inj, UInt8.toNat_ofNat', UInt8.toNat_ofNat'] at high low
  rw [← UInt16.toNat_inj]
  omega

/-- The bytes that are hashed for a cell, in full. -/
theorem hashed_eq (c : Cell) : c.hashed =
    UInt8.ofNat c.refs.length :: UInt8.ofNat (c.bits.length / 8 + (c.bits.length + 7) / 8) ::
      (completed c.bits ++ (c.refs.flatMap (fun r => depthBytes r.depth) ++
        c.refs.flatMap hash)) := by
  rw [hashed, representation, digests_eq_map, List.length_map, List.flatMap_map, List.flatMap_map,
    List.append_assoc, List.append_assoc]
  rfl

/-! ## Reading the bytes back -/

theorem length_completed (bits : List Bool) : (completed bits).length = (bits.length + 7) / 8 := by
  rw [completed, Bits.length_pack]
  split
  · rfl
  · rw [List.length_append, List.length_singleton]
    omega

/-- What stands behind the first one among bits does not depend on how many zeros lead to it. -/
theorem eq_of_leading_zeros {us vs : List Bool} {m n : Nat}
    (same : List.replicate m false ++ true :: us = List.replicate n false ++ true :: vs) :
    us = vs := by
  induction m generalizing n with
  | zero =>
    cases n with
    | zero => exact (List.cons.inj same).2
    | succ n => cases same
  | succ m ih =>
    cases n with
    | zero => cases same
    | succ n => exact ih (List.cons.inj same).2

/-- The last one among bits marks where those before it end. -/
theorem eq_of_marked {xs ys : List Bool} {m n : Nat}
    (same : xs ++ true :: List.replicate m false = ys ++ true :: List.replicate n false) :
    xs = ys := by
  have backwards := congrArg List.reverse same
  simp only [List.reverse_append, List.reverse_cons, List.reverse_replicate, List.append_assoc,
    List.singleton_append] at backwards
  exact List.reverse_inj.mp (eq_of_leading_zeros backwards)

/-- The data of a cell can be read off its bytes if it is known whether the last one is full. -/
theorem completed_injective {xs ys : List Bool} (whole : xs.length % 8 = 0 ↔ ys.length % 8 = 0)
    (same : completed xs = completed ys) : xs = ys := by
  unfold completed at same
  have bits := congrArg Bits.ofBytes same
  rw [Bits.ofBytes_pack, Bits.ofBytes_pack] at bits
  by_cases full : xs.length % 8 = 0
  · rw [if_pos full, if_pos (whole.mp full), padded, padded, full, whole.mp full] at bits
    simpa using bits
  · rw [if_neg full, if_neg (mt whole.mpr full), padded, padded, List.append_assoc,
      List.append_assoc, List.singleton_append, List.singleton_append] at bits
    exact eq_of_marked bits

section Lists

variable {α β γ : Type} {xs ys : List α}

/-- Blocks of one length that stand side by side are told apart. -/
theorem map_eq_of_flatMap_eq {f : α → List β} {g : α → γ} {n : Nat}
    (block : ∀ x, (f x).length = n) (tell : ∀ x y, f x = f y → g x = g y)
    (length : xs.length = ys.length) (same : xs.flatMap f = ys.flatMap f) :
    xs.map g = ys.map g := by
  induction xs generalizing ys with
  | nil => rw [List.length_eq_zero_iff.mp length.symm]
  | cons x xs ih =>
    cases ys with
    | nil => cases length
    | cons y ys =>
      rw [List.flatMap_cons, List.flatMap_cons] at same
      obtain ⟨first, rest⟩ := List.append_inj same ((block x).trans (block y).symm)
      rw [List.map_cons, List.map_cons, tell x y first, ih (Nat.succ.inj length) rest]

/-- Different lists of equal images have different entries of one image. -/
theorem exists_ne_of_map_eq {f : α → β} (same : xs.map f = ys.map f) (differ : xs ≠ ys) :
    ∃ x ∈ xs, ∃ y ∈ ys, f x = f y ∧ x ≠ y := by
  induction xs generalizing ys with
  | nil => exact absurd (List.map_eq_nil_iff.mp same.symm).symm differ
  | cons x xs ih =>
    obtain ⟨y, ys, rfl, first, rest⟩ := List.map_eq_cons_iff.mp same.symm
    by_cases equal : x = y
    · subst equal
      obtain ⟨u, inside, v, inside', hu, apart⟩ := ih rest.symm fun tails => differ (by rw [tails])
      exact ⟨u, List.mem_cons_of_mem _ inside, v, List.mem_cons_of_mem _ inside', hu, apart⟩
    · exact ⟨x, List.mem_cons_self, y, List.mem_cons_self, first.symm, equal⟩

end Lists

/-- All that a cell is hashed of can be read off the bytes that are hashed. -/
theorem eq_of_hashed_eq (built : a.Built) (built' : b.Built) (same : a.hashed = b.hashed) :
    a.bits = b.bits ∧ a.refs.map depth = b.refs.map depth ∧ a.refs.map hash = b.refs.map hash := by
  obtain ⟨bitsWithin, refsWithin, -⟩ := built.limits
  obtain ⟨bitsWithin', refsWithin', -⟩ := built'.limits
  rw [hashed_eq, hashed_eq] at same
  obtain ⟨count, same⟩ := List.cons.inj same
  obtain ⟨size, body⟩ := List.cons.inj same
  rw [← UInt8.toNat_inj, UInt8.toNat_ofNat', UInt8.toNat_ofNat'] at count size
  have refs : a.refs.length = b.refs.length := by omega
  have bytes : (a.bits.length + 7) / 8 = (b.bits.length + 7) / 8 := by omega
  have whole : a.bits.length % 8 = 0 ↔ b.bits.length % 8 = 0 := by omega
  have width : (completed a.bits).length = (completed b.bits).length := by
    rw [length_completed, length_completed, bytes]
  obtain ⟨data, digests⟩ := List.append_inj body width
  have two : ∀ r : Cell, (depthBytes r.depth).length = 2 := fun _ => rfl
  have width : (a.refs.flatMap fun r => depthBytes r.depth).length =
      (b.refs.flatMap fun r => depthBytes r.depth).length := by
    simp only [List.length_flatMap, two, List.map_const', refs]
  obtain ⟨depths, hashes⟩ := List.append_inj digests width
  refine ⟨completed_injective whole data, ?_, ?_⟩
  · exact map_eq_of_flatMap_eq two (fun _ _ => depthBytes_injective) refs depths
  · exact map_eq_of_flatMap_eq length_hash (fun _ _ => id) refs hashes

/-- A cell, or one that its references lead to. -/
abbrev Reaches : Cell → Cell → Prop := Relation.ReflTransGen fun c r => r ∈ c.refs

/-- Different trees of one hash have nodes with different bytes of one hash. -/
theorem exists_collision (built : a.Built) (built' : b.Built) (same : a.hash = b.hash)
    (differ : a ≠ b) : ∃ x y, a.Reaches x ∧ b.Reaches y ∧ x.hashed ≠ y.hashed ∧
      Sha256.hash x.hashed = Sha256.hash y.hashed := by
  induction built generalizing b with
  | build source below ih =>
    by_cases bytes : source.build.hashed = b.hashed
    · obtain ⟨data, -, hashes⟩ := eq_of_hashed_eq (.build source below) built' bytes
      have differ : source.build.refs ≠ b.refs := by
        intro refs
        obtain ⟨bits', refs'⟩ := b
        exact differ (congrArg₂ Cell.mk data refs)
      obtain ⟨r, among, r', among', equal, apart⟩ := exists_ne_of_map_eq hashes differ
      obtain ⟨x, y, way, way', collision⟩ := ih r among (built'.limits.2.2 r' among') equal apart
      exact ⟨x, y, .head among way, .head among' way', collision⟩
    · rw [hash_eq, hash_eq] at same
      exact ⟨_, _, .refl, .refl, bytes, same⟩

/-- The bytes that are hashed for a cell out of a builder tell its bits, and the depths and hashes
of its references. So cells that pass for the same are the same down to the last reference, or else
two different such byte sequences of nodes of theirs have one hash. -/
theorem binding_of_built (built : a.Built) (built' : b.Built) :
    (a.hashed = b.hashed → a.bitLength = b.bitLength ∧ a.data = b.data ∧
      a.refs.length = b.refs.length ∧ a.refs.map depth = b.refs.map depth ∧
      a.refs.map hash = b.refs.map hash) ∧
    (a.same b = true → a = b ∨ ∃ x y, a.Reaches x ∧ b.Reaches y ∧ x.hashed ≠ y.hashed ∧
      Sha256.hash x.hashed = Sha256.hash y.hashed) := by
  constructor
  · intro same
    obtain ⟨bits, depths, hashes⟩ := eq_of_hashed_eq built built' same
    have length := congrArg List.length depths
    rw [List.length_map, List.length_map] at length
    exact ⟨congrArg List.length bits, congrArg pack bits, length, depths, hashes⟩
  · intro same
    by_cases equal : a = b
    · exact .inl equal
    · exact .inr (exists_collision built built' (beq_iff_eq.mp same) equal)

/-- A number in two bytes and a reference. -/
def numbered : Cell :=
  (Builder.filled [.part ⟨.u64 16, (258 : UInt64)⟩, .part ⟨.ref, empty⟩]).build

/-- Two bytes and a reference. -/
def spelled : Cell := (Builder.filled [.bytes [1, 2], .part ⟨.ref, empty⟩]).build

/-- Two cells that are built in different ways, with the same bits and the same reference. -/
theorem binding_of_numbered_spelled :
    numbered.Built ∧ spelled.Built ∧ numbered.hashed = spelled.hashed ∧
      numbered.data = spelled.data ∧ numbered.refs.map hash = spelled.refs.map hash ∧
      numbered.same spelled = true ∧ (numbered = spelled ∨ ∃ x y, numbered.Reaches x ∧
        spelled.Reaches y ∧ x.hashed ≠ y.hashed ∧
          Sha256.hash x.hashed = Sha256.hash y.hashed) := by
  have builtEmpty : empty.Built := .build .empty nofun
  have builtWithRef : ∀ first : Entry, first.cells = [] →
      (Builder.filled [first, .part ⟨.ref, empty⟩]).build.Built := by
    intro first none
    refine built_filled fun entry listed c held => ?_
    simp only [List.mem_cons, List.not_mem_nil, or_false] at listed
    rcases listed with rfl | rfl
    · rw [none] at held
      cases held
    · rwa [List.mem_singleton.mp held]
  have built : numbered.Built := builtWithRef _ rfl
  have built' : spelled.Built := builtWithRef _ rfl
  have equal : numbered = spelled := rfl
  have bytes : numbered.hashed = spelled.hashed := congrArg hashed equal
  have same : numbered.same spelled = true := by
    rw [equal, Cell.same, beq_self_eq_true]
  obtain ⟨told, bound⟩ := binding_of_built built built'
  obtain ⟨-, data, -, -, hashes⟩ := told bytes
  exact ⟨built, built', bytes, data, hashes, same, bound same⟩

end ContractAbi.Cell
