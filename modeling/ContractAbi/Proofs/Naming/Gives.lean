import ContractAbi.Proofs.Naming.Namer

/-!
# Names that are given one after another

`Gives` says that a namer gives names in order and what becomes of it; claims that are made in
between elsewhere do not count. No name is given twice, and none that was taken at the start
(`Gives.nodup`, `Gives.notMem_taken`). A kind of names that numbers do not lead out of is kept
(`Gives.kinds`).
-/

namespace ContractAbi.Namer

/-- The names are given in order, each for a candidate of the kind, and lead from one namer to the
other. -/
inductive Gives (kind : String → Prop) : Namer → List String → Namer → Prop
  | done (namer : Namer) : Gives kind namer [] namer
  | claim {namer after : Namer} {candidate : String} {names : List String} (fits : kind candidate)
      (rest : Gives kind ((claim candidate).run namer).2 names after) :
      Gives kind namer (namer.choose candidate :: names) after

variable {kind : String → Prop} {before between after : Namer} {names more : List String}

/-- A claim gives the candidate itself or the candidate with a number. -/
theorem choose_eq_or (namer : Namer) (candidate : String) :
    namer.choose candidate = candidate ∨
      ∃ n, namer.choose candidate = numbered (Naming.plain candidate) n := by
  rw [choose]
  split
  · obtain ⟨n, found, -⟩ := exists_firstFree namer.taken (Naming.plain candidate) 2
    exact .inr ⟨n, found⟩
  · exact .inl rfl

namespace Gives

theorem one {candidate : String} (fits : kind candidate) (namer : Namer) :
    Gives kind namer [((Namer.claim candidate).run namer).1]
      ((Namer.claim candidate).run namer).2 :=
  .claim fits (.done _)

theorem append (given : Gives kind before names between) (further : Gives kind between more after) :
    Gives kind before (names ++ more) after := by
  induction given with
  | done => exact further
  | claim fits _ ih => exact .claim fits (ih further)

/-- What is given was free. -/
theorem notMem_taken (given : Gives kind before names after) {name : String}
    (member : name ∈ names) : name ∉ before.taken := by
  induction given with
  | done => cases member
  | claim fits rest ih =>
    rcases List.mem_cons.mp member with rfl | later
    · exact choose_notMem _ _
    · intro taken
      exact ih later (List.mem_cons_of_mem _ taken)

theorem nodup (given : Gives kind before names after) : names.Nodup := by
  induction given with
  | done => exact .nil
  | claim fits rest ih =>
    refine List.nodup_cons.mpr ⟨?_, ih⟩
    intro again
    -- Behind the claim its name is taken.
    exact rest.notMem_taken again List.mem_cons_self

/-- What is given is of the kind of the candidates, if numbers do not lead out of the kind. -/
theorem kinds (numbers : ∀ name n, kind name → kind (numbered (Naming.plain name) n))
    (given : Gives kind before names after) : ∀ name ∈ names, kind name := by
  induction given with
  | done => simp
  | @claim namer _ candidate _ fits rest ih =>
    intro name member
    rcases List.mem_cons.mp member with rfl | later
    · rcases namer.choose_eq_or candidate with same | ⟨n, same⟩
      · rw [same]
        exact fits
      · rw [same]
        exact numbers candidate n fits
    · exact ih name later

/-- The names of a run over a list are those of its entries one after another, where each entry
makes its claims. -/
theorem mapM {σ α β : Type} (f : α → StateM σ β) (view : σ → Namer) (parts : β → List String)
    {xs : List α} (each : ∀ x ∈ xs, ∀ s,
      Gives kind (view s) (parts ((f x).run s).1) (view ((f x).run s).2)) (s : σ) :
    Gives kind (view s) (((xs.mapM f).run s).1.flatMap parts) (view ((xs.mapM f).run s).2) := by
  induction xs generalizing s with
  | nil => exact .done _
  | cons x xs ih =>
    rw [List.mapM_cons]
    have first := each x List.mem_cons_self s
    have rest := ih (fun y member => each y (List.mem_cons_of_mem _ member)) ((f x).run s).2
    exact first.append rest

theorem claimAll {candidates : List String} (fits : ∀ candidate ∈ candidates, kind candidate)
    (namer : Namer) : Gives kind namer ((Namer.claimAll candidates).run namer).1
      ((Namer.claimAll candidates).run namer).2 := by
  have given := mapM Namer.claim id (fun name => [name])
    (fun candidate member namer => one (fits candidate member) namer) namer
  rwa [List.flatMap_singleton'] at given

end Gives

end ContractAbi.Namer
