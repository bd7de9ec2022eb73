import Std.Data.String.ToNat
import Mathlib.Data.List.Nodup
import ContractAbi.Naming.Namer

/-!
# Names that are claimed are new

A namer tries as many numbers as there are names taken, and one number more without a test. The
names with different numbers differ, so that they cannot all be taken: what a claim gives was free
(`Namer.choose_notMem`), and its number, if it has one, is the least that makes a free name
(`Namer.exists_firstFree`).
-/

namespace ContractAbi

namespace Namer

/-- Different numbers give different names. -/
theorem numbered_inj {base : String} {m n : Nat} :
    numbered base m = numbered base n ↔ m = n := by
  rw [numbered, numbered, String.append_right_inj]
  exact Nat.repr_inj

/-- A search ends at the first free number, or behind the last number that it tests. -/
theorem firstFree_spec (taken : List String) (base : String) (tries n : Nat) :
    ∃ m, firstFree taken base tries n = numbered base m ∧ n ≤ m ∧ m ≤ n + tries ∧
      (∀ k, n ≤ k → k < m → numbered base k ∈ taken) ∧
      (numbered base m ∈ taken → m = n + tries) := by
  -- By induction on the tests that are left, from each number on.
  induction tries generalizing n with
  | zero =>
    refine ⟨n, rfl, Nat.le_refl n, Nat.le_refl n, ?_, fun _ => rfl⟩
    intro k low high
    omega
  | succ tries ih =>
    rw [firstFree]
    by_cases used : numbered base n ∈ taken
    · rw [if_pos used]
      obtain ⟨m, found, low, high, earlier, last⟩ := ih (n + 1)
      refine ⟨m, found, by omega, by omega, ?_, ?_⟩
      · intro k above below
        by_cases first : k = n
        · rw [first]
          exact used
        · exact earlier k (by omega) below
      · intro member
        have := last member
        omega
    · rw [if_neg used]
      refine ⟨n, rfl, Nat.le_refl n, by omega, ?_, ?_⟩
      · intro k low high
        omega
      · intro member
        exact absurd member used

/-- As many tests as there are names taken are enough to get to the least free number. -/
theorem exists_firstFree (taken : List String) (base : String) (n : Nat) :
    ∃ m, firstFree taken base taken.length n = numbered base m ∧ n ≤ m ∧
      numbered base m ∉ taken ∧ ∀ k, n ≤ k → k < m → numbered base k ∈ taken := by
  obtain ⟨m, found, low, -, earlier, last⟩ := firstFree_spec taken base taken.length n
  refine ⟨m, found, low, ?_, earlier⟩
  intro member
  have all : (List.range' n (taken.length + 1)).map (numbered base) ⊆ taken := by
    intro name listed
    obtain ⟨k, inRange, rfl⟩ := List.mem_map.mp listed
    obtain ⟨above, below⟩ := List.mem_range'_1.mp inRange
    have := last member
    by_cases same : k = m
    · rw [same]
      exact member
    · exact earlier k above (by omega)
  have distinct : ((List.range' n (taken.length + 1)).map (numbered base)).Nodup := by
    apply List.Nodup.map
    · intro a b same
      exact numbered_inj.mp same
    · exact List.nodup_range'
  -- There are more of these names than names taken.
  have few := distinct.length_le_of_subset all
  simp only [List.length_map, List.length_range'] at few
  omega

/-- A claim gives a name that was free. -/
theorem choose_notMem (namer : Namer) (candidate : String) :
    namer.choose candidate ∉ namer.taken := by
  rw [choose]
  by_cases used : candidate ∈ namer.taken
  · rw [if_pos used]
    obtain ⟨m, found, -, free, -⟩ :=
      exists_firstFree namer.taken (Naming.plain candidate) 2
    rw [found]
    exact free
  · rw [if_neg used]
    exact used

end Namer

end ContractAbi
