import ContractAbi.Proofs.Cell.Filling

/-!
# Cells that come out of builders

A cell is made by a builder, and so are the cells that it refers to. A builder has the limits of a
cell, so that all these cells keep within them. Whatever entries are stored into a builder, its cell
is of this kind if the cells that the entries refer to are (`built_filled`): the chains that texts
add are made by builders too.
-/

namespace ContractAbi

/-- The cells that an entry refers to. -/
def Entry.cells : Entry → List Cell
  | .part ⟨.ref, c⟩ => [c]
  | .part ⟨.maybeRef, some c⟩ => [c]
  | _ => []

namespace Cell

/-- Cells that builders make, with references to cells that builders have made before. -/
inductive Built : Cell → Prop
  | build (b : Builder) : (∀ r ∈ b.refs, Built r) → Built b.build

variable {c : Cell}

/-- The limits of the builder are those of its cell. -/
theorem Built.limits (built : c.Built) :
    c.bits.length ≤ 1023 ∧ c.refs.length ≤ 4 ∧ ∀ r ∈ c.refs, r.Built := by
  cases built with
  | build b below => exact ⟨b.bits_le, b.refs_le, below⟩

/-- The cells of a chain are made by builders, from the last one on. -/
theorem built_snake (bytes : List UInt8) : (snake bytes).Built := by
  fun_induction snake bytes with
  | case1 bytes short =>
    have within : (Bits.ofBytes bytes).length ≤ maxBits := by
      have size : bytes.length ≤ 127 := short
      rw [Bits.length_ofBytes, maxBits]
      omega
    exact .build ⟨Bits.ofBytes bytes, [], within, Nat.zero_le _⟩ (List.forall_mem_nil _)
  | case2 bytes long ih =>
    have within : (Bits.ofBytes (bytes.take chunkSize)).length ≤ maxBits := by
      rw [Bits.length_ofBytes, List.length_take, chunkSize, maxBits]
      omega
    refine .build ⟨Bits.ofBytes (bytes.take chunkSize), [snake (bytes.drop chunkSize)], within,
      (by decide : 1 ≤ maxRefs)⟩ ?_
    intro r among
    rw [List.mem_singleton.mp among]
    exact ih

end Cell

open Cell (snake)

variable {b c : Builder}

/-- The references that an entry adds are the cells that it refers to, and the chain of a text. -/
theorem Entry.exists_refs {entry : Entry} (stored : entry.store b = .ok () c) :
    ∃ refs, c.refs = b.refs ++ refs ∧ ∀ r ∈ refs, r ∈ entry.cells ∨ ∃ bytes, r = snake bytes := by
  have plain : ∀ {bits}, b.Grows bits [] c → ∃ refs, c.refs = b.refs ++ refs ∧
      ∀ r ∈ refs, r ∈ entry.cells ∨ ∃ bytes, r = snake bytes := by
    intro bits grows
    exact ⟨[], grows.refs_eq, nofun⟩
  -- Only references, and texts that do not fit, add more than bits.
  cases entry with
  | bytes data => exact plain (Store.bytes_eq_ok.mp stored)
  | part p =>
    obtain ⟨kind, value⟩ := p
    cases kind with
    | bit => exact plain (Store.bit_eq_ok.mp stored)
    | u64 width => exact plain (Store.u64_eq_ok.mp stored).2.2
    | i64 width => exact plain (Store.i64_eq_ok.mp stored).2.2.2
    | uint width => exact plain (Store.uint_eq_ok.mp stored).2
    | int width => exact plain (Store.int_eq_ok.mp stored).2.2
    | varUInt bound => exact plain (Store.varUInt_eq_ok.mp stored).2.2
    | address =>
      cases value with
      | none => exact plain (Store.address_none_eq_ok.mp stored)
      | some a => exact plain (Store.address_some_eq_ok.mp stored)
    | standardAddress => exact plain (Store.address_some_eq_ok.mp stored)
    | ref => exact ⟨[value], (Store.ref_eq_ok.mp stored).refs_eq, fun r among => .inl among⟩
    | maybeRef =>
      cases value with
      | none => exact plain (Store.maybeRef_none_eq_ok.mp stored)
      | some value =>
        have grows := Store.maybeRef_some_eq_ok.mp stored
        exact ⟨[value], grows.refs_eq, fun r among => .inl among⟩
    | text =>
      by_cases fits : value.toUTF8.toList.length ≤ b.bitsLeft / 8
      · exact plain ((Store.text_eq_ok_of_le fits).mp stored)
      · have grows := (Store.text_eq_ok_of_lt (Nat.lt_of_not_le fits)).mp stored
        exact ⟨_, grows.refs_eq, fun r among => .inr ⟨_, List.mem_singleton.mp among⟩⟩

namespace Builder

/-- What a builder refers to behind an entry was there before, or has come with the entry. -/
theorem mem_refs_after {entry : Entry} {r : Cell} (among : r ∈ (b.after entry).refs) :
    r ∈ b.refs ∨ r ∈ entry.cells ∨ ∃ bytes, r = snake bytes := by
  unfold Builder.after at among
  cases result : entry.store b with
  | ok u c =>
    obtain ⟨refs, appended, origin⟩ := Entry.exists_refs result
    rw [result] at among
    simp only [appended, List.mem_append] at among
    rcases among with before | added
    · exact .inl before
    · exact .inr (origin r added)
  | error e c =>
    obtain ⟨-, unchanged, -⟩ := (keeps b entry).failed e c result
    rw [result] at among
    simp only [unchanged] at among
    exact .inl among

/-- What a filled builder refers to has come with one of the entries. -/
theorem mem_refs_filled {entries : List Entry} {r : Cell} (among : r ∈ (filled entries).refs) :
    (∃ entry ∈ entries, r ∈ entry.cells) ∨ ∃ bytes, r = snake bytes := by
  have run : ∀ b : Builder, r ∈ (entries.foldl Builder.after b).refs →
      r ∈ b.refs ∨ (∃ entry ∈ entries, r ∈ entry.cells) ∨ ∃ bytes, r = snake bytes := by
    clear among
    induction entries with
    | nil => exact fun b among => .inl among
    | cons entry entries ih =>
      intro b among
      rcases ih _ among with before | ⟨later, listed, held⟩ | chain
      · rcases mem_refs_after before with first | held | chain
        · exact .inl first
        · exact .inr (.inl ⟨entry, List.mem_cons_self, held⟩)
        · exact .inr (.inr chain)
      · exact .inr (.inl ⟨later, List.mem_cons_of_mem _ listed, held⟩)
      · exact .inr (.inr chain)
  rcases run empty among with none | found
  · cases none
  · exact found

end Builder

/-- A builder that is filled with entries makes a cell of cells out of builders. -/
theorem Cell.built_filled {entries : List Entry}
    (built : ∀ entry ∈ entries, ∀ c ∈ entry.cells, c.Built) :
    (Builder.filled entries).build.Built := by
  refine .build _ ?_
  intro r among
  rcases Builder.mem_refs_filled among with ⟨entry, listed, held⟩ | ⟨bytes, rfl⟩
  · exact built entry listed r held
  · exact built_snake bytes

end ContractAbi
