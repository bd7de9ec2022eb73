import ContractAbi.Naming.Identifier

/-!
# Unique names

A namer keeps the names that are taken in one scope. A name that is claimed twice gets a number the
second time: the least one from two on that makes a free name.
-/

namespace ContractAbi

/-- The names that are taken. -/
structure Namer where
  taken : List String
  deriving DecidableEq

namespace Namer

/-- A namer of a scope in which these names are taken from the start. -/
def reserving (names : List String) : Namer := ⟨names⟩

/-- A name with a number. -/
def numbered (base : String) (n : Nat) : String := base ++ "_" ++ toString n

/-- The name with the least number from `n` on that is not taken, among the next `tries`; the one
after them if all of those are. -/
def firstFree (taken : List String) (base : String) : Nat → Nat → String
  | 0, n => numbered base n
  | tries + 1, n =>
    if numbered base n ∈ taken then firstFree taken base tries (n + 1) else numbered base n

/-- The name that a claim gives. Among one more numbers than there are names taken one is free. -/
def choose (namer : Namer) (candidate : String) : String :=
  if candidate ∈ namer.taken then
    firstFree namer.taken (Naming.plain candidate) namer.taken.length 2
  else candidate

/-- Claims a name: the candidate itself, or the candidate with a number. -/
def claim (candidate : String) : StateM Namer String := fun namer =>
  (namer.choose candidate, ⟨namer.choose candidate :: namer.taken⟩)

/-- Claims names in order. -/
def claimAll (candidates : List String) : StateM Namer (List String) := candidates.mapM claim

end Namer

end ContractAbi
