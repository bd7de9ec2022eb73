import Mathlib.Order.Bounds.Defs
import ContractAbi.Proofs.Naming.Gives

/-!
# What a sequence of claims gives

A claim looks for a free number without a bound: it goes on from two as long as it meets names that
are taken (`Search`). As no two numbers make the same name, it comes to an end behind as many names
as are taken at most, and that is where a claim of a namer ends (`Settles.choose`). So each claim of
a sequence gives the candidate or the least free number, measured by the names that are reserved or
were given before it, and no name twice (`claimAll_reserving`).
-/

namespace ContractAbi.Namer

/-- A search for a free name, which goes on from number to number until it meets one. -/
inductive Search (taken : List String) (base : String) : Nat → Nat → Prop
  | found {n : Nat} (free : numbered base n ∉ taken) : Search taken base n n
  | next {n m : Nat} (used : numbered base n ∈ taken) (rest : Search taken base (n + 1) m) :
      Search taken base n m

variable {taken others : List String} {base candidate name : String} {n m : Nat}

namespace Search

/-- A search ends at the least free number. -/
theorem isLeast (search : Search taken base n m) :
    IsLeast {k | n ≤ k ∧ numbered base k ∉ taken} m := by
  induction search with
  | @found n free =>
    refine ⟨⟨Nat.le_refl n, free⟩, ?_⟩
    intro k within
    exact within.1
  | @next n m used rest ih =>
    obtain ⟨⟨above, free⟩, least⟩ := ih
    refine ⟨⟨by omega, free⟩, ?_⟩
    rintro k ⟨within, unused⟩
    have different : k ≠ n := by
      rintro rfl
      exact unused used
    exact least ⟨by omega, unused⟩

theorem of_earlier_used (below : n ≤ m) (free : numbered base m ∉ taken)
    (used : ∀ k, n ≤ k → k < m → numbered base k ∈ taken) : Search taken base n m := by
  obtain ⟨steps, rfl⟩ := Nat.exists_eq_add_of_le below
  induction steps generalizing n with
  | zero => exact .found free
  | succ steps ih =>
    have rest : n + (steps + 1) = n + 1 + steps := by omega
    rw [rest] at free used ⊢
    refine .next (used n (Nat.le_refl n) (by omega)) (ih (by omega) free ?_)
    intro k above
    exact used k (by omega)

theorem of_perm (search : Search taken base n m) (same : taken.Perm others) :
    Search others base n m := by
  induction search with
  | found free => exact .found fun member => free (same.mem_iff.mpr member)
  | next used _ ih => exact .next (same.mem_iff.mp used) ih

/-- The search of a namer ends, at the latest behind as many names as are taken. -/
theorem firstFree (taken : List String) (base : String) (n : Nat) :
    ∃ m, Namer.firstFree taken base taken.length n = numbered base m ∧ Search taken base n m ∧
      m ≤ n + taken.length := by
  obtain ⟨m, found, low, free, earlier⟩ := exists_firstFree taken base n
  obtain ⟨k, same, -, high, -⟩ := firstFree_spec taken base taken.length n
  obtain rfl : k = m := numbered_inj.mp (same.symm.trans found)
  exact ⟨k, found, of_earlier_used low free earlier, high⟩

end Search

/-- The name is the one that a claim has to give where these names are taken: the candidate if it is
free, or else the candidate without its raw mark and with the least number from two on that makes a
free name. The search for the number ends there, and tests one more name than are taken at most. -/
inductive Settles (taken : List String) (candidate : String) : String → Prop
  | itself (free : candidate ∉ taken) : Settles taken candidate candidate
  | number {n : Nat} (used : candidate ∈ taken)
      (search : Search taken (Naming.plain candidate) 2 n)
      (least : IsLeast {k | 2 ≤ k ∧ numbered (Naming.plain candidate) k ∉ taken} n)
      (bound : n ≤ 2 + taken.length) :
      Settles taken candidate (numbered (Naming.plain candidate) n)

namespace Settles

/-- What a namer gives for a candidate. -/
theorem choose (namer : Namer) (candidate : String) :
    Settles namer.taken candidate (namer.choose candidate) := by
  rw [Namer.choose]
  by_cases used : candidate ∈ namer.taken
  · rw [if_pos used]
    obtain ⟨n, found, search, bound⟩ :=
      Search.firstFree namer.taken (Naming.plain candidate) 2
    rw [found]
    exact .number used search search.isLeast bound
  · rw [if_neg used]
    exact .itself used

/-- The order in which names were taken makes no difference. -/
theorem of_perm (settles : Settles taken candidate name) (same : taken.Perm others) :
    Settles others candidate name := by
  cases settles with
  | itself free => exact .itself fun member => free (same.mem_iff.mpr member)
  | number used search _ bound =>
    have moved := search.of_perm same
    exact .number (same.mem_iff.mp used) moved moved.isLeast (same.length_eq ▸ bound)

end Settles

/-- Names are chosen one after the other, each with those before it taken. -/
theorem run_claimAll_cons (candidate : String) (candidates : List String) (namer : Namer) :
    ((claimAll (candidate :: candidates)).run namer).1 = namer.choose candidate ::
      ((claimAll candidates).run ⟨namer.choose candidate :: namer.taken⟩).1 := by
  rw [claimAll, List.mapM_cons]
  rfl

/-- Each claim of a sequence is settled by the names that were taken at the start and those that the
claims before it gave. -/
theorem settles_claimAll (candidates : List String) (namer : Namer) :
    ((claimAll candidates).run namer).1.length = candidates.length ∧
    ∀ i candidate name, candidates[i]? = some candidate →
      ((claimAll candidates).run namer).1[i]? = some name →
      Settles (namer.taken ++ ((claimAll candidates).run namer).1.take i) candidate name := by
  induction candidates generalizing namer with
  | nil => exact ⟨rfl, nofun⟩
  | cons first candidates ih =>
    obtain ⟨length, rest⟩ := ih ⟨namer.choose first :: namer.taken⟩
    rw [run_claimAll_cons]
    refine ⟨congrArg (· + 1) length, ?_⟩
    intro i candidate name asked given
    cases i with
    | zero =>
      cases asked
      cases given
      rw [List.take_zero, List.append_nil]
      exact .choose namer first
    | succ i =>
      have settled := rest i candidate name asked given
      rw [List.take_succ_cons]
      exact settled.of_perm List.perm_middle.symm

/-- Of a sequence of claims each one ends. It gives its candidate if that is neither reserved nor
given before, and else the candidate with the least number that is neither. So no two of the names
are the same and none is reserved, whatever the candidates look like. -/
theorem claimAll_reserving (reserved candidates : List String) :
    ((claimAll candidates).run (reserving reserved)).1.length = candidates.length ∧
    (∀ i : Fin candidates.length, ∃ name,
      ((claimAll candidates).run (reserving reserved)).1[i.val]? = some name ∧
      Settles (reserved ++ ((claimAll candidates).run (reserving reserved)).1.take i)
        candidates[i] name) ∧
    ((claimAll candidates).run (reserving reserved)).1.Nodup ∧
    ∀ name ∈ ((claimAll candidates).run (reserving reserved)).1, name ∉ reserved := by
  obtain ⟨length, settled⟩ := settles_claimAll candidates (reserving reserved)
  have given : Gives (fun _ => True) (reserving reserved)
      ((claimAll candidates).run (reserving reserved)).1 _ := .claimAll (fun _ _ => trivial) _
  refine ⟨length, ?_, given.nodup, fun _ => given.notMem_taken⟩
  intro i
  have inside : i.val < ((claimAll candidates).run (reserving reserved)).1.length := by
    rw [length]
    exact i.isLt
  have answered := List.getElem?_eq_getElem inside
  exact ⟨_, answered, settled i _ _ (List.getElem?_eq_getElem i.isLt) answered⟩

/-- A candidate that looks like a name with a number takes that number from others. -/
example : ((claimAll ["x_2", "x", "x", "x_2", "r#type", "r#type", "new"]).run
    (reserving ["new", "new_2"])).1 =
      ["x_2", "x", "x_3", "x_2_2", "r#type", "type_2", "new_3"] := by
  decide +kernel

end ContractAbi.Namer
