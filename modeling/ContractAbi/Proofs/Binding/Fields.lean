import ContractAbi.Binding.Messages

/-!
# Fields of parameters

Names are claimed for the parts of a model one after another, so that the parts come out of runs
with a state. What a run over a list gives comes from the entries of the list, and what does not
depend on the state is the same as without one. The fields of a list of parameters are in this way
the parameters in their order, with their names and categories (`map_fieldsOf`).
-/

namespace ContractAbi.Binding

section StateM

variable {σ α β γ : Type} {f : α → StateM σ β}

/-- What a run over a list gives comes from an entry of the list, in some state. -/
theorem exists_of_mem_mapM {xs : List α} {s : σ} {y : β} (member : y ∈ ((xs.mapM f).run s).1) :
    ∃ x ∈ xs, ∃ r, y = ((f x).run r).1 := by
  induction xs generalizing s with
  | nil => cases member
  | cons x xs ih =>
    rw [List.mapM_cons] at member
    rcases List.mem_cons.mp member with first | later
    · exact ⟨x, List.mem_cons_self, s, first⟩
    · obtain ⟨z, listed, r, from'⟩ := ih later
      exact ⟨z, List.mem_cons_of_mem _ listed, r, from'⟩

/-- What does not depend on the state is the same for each entry as without one. -/
theorem map_mapM {g : β → γ} {h : α → γ} (stateless : ∀ x s, g ((f x).run s).1 = h x)
    (xs : List α) (s : σ) : ((xs.mapM f).run s).1.map g = xs.map h := by
  induction xs generalizing s with
  | nil => rfl
  | cons x xs ih =>
    rw [List.mapM_cons, List.map_cons, ← stateless x s, ← ih ((f x).run s).2]
    rfl

theorem length_mapM (xs : List α) (s : σ) : ((xs.mapM f).run s).1.length = xs.length := by
  have units := map_mapM (f := f) (g := fun _ => ()) (h := fun _ => ()) (fun _ _ => rfl) xs s
  simpa using congrArg List.length units

end StateM

/-- The name and the category of a field. -/
def Field.signature (f : Field) : String × Category := (f.name, f.category)

theorem length_identifiers (params : List Parameter) :
    ((Namer.claimAll (params.map fun p => Naming.identifier p.name)).run ⟨[]⟩).1.length =
      params.length := by
  rw [Namer.claimAll, length_mapM, List.length_map]

/-- Each parameter has a field, with its name and category. -/
theorem map_fieldsOf (category : Parameter → Category) (params : List Parameter) :
    (fieldsOf category params).map (·.signature) = params.map fun p => (p.name, category p) := by
  rw [fieldsOf]
  have enough := length_identifiers params
  generalize ((Namer.claimAll _).run _).1 = idents at enough ⊢
  induction params generalizing idents with
  | nil => rfl
  | cons p params ih =>
    cases idents with
    | nil => cases enough
    | cons ident idents =>
      rw [List.zipWith_cons_cons, List.map_cons, List.map_cons,
        ih idents (Nat.succ.inj enough)]
      rfl

/-- Every field comes of a parameter, whose category it has. -/
theorem exists_of_mem_fieldsOf {category : Parameter → Category} {params : List Parameter}
    {f : Field} (member : f ∈ fieldsOf category params) : ∃ p ∈ params, f.category = category p := by
  have listed : f.signature ∈ (fieldsOf category params).map (·.signature) :=
    List.mem_map_of_mem member
  rw [map_fieldsOf] at listed
  obtain ⟨p, inParams, same⟩ := List.mem_map.mp listed
  exact ⟨p, inParams, (congrArg Prod.snd same).symm⟩

end ContractAbi.Binding
