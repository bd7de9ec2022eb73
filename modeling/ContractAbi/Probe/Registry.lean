import ContractAbi.Binding.Model
import ContractAbi.Contract.Basic
import ContractAbi.Text.Quoted

/-!
# Registries

Which class stands for which interface name. The entries keep the order in which the names were
first registered, and that is the order in which interfaces are tried.
-/

namespace ContractAbi

/-- Classes by interface name; no name occurs twice. -/
structure Registry where
  entries : List (String × Binding.Class)
  nodup_names : (entries.map (·.1)).Nodup
  deriving DecidableEq

namespace Registry

/-- The registry without entries. -/
def empty : Registry := ⟨[], List.nodup_nil⟩

/-- The entries with one replaced, or added at the end. -/
def put (name : String) (c : Binding.Class) :
    List (String × Binding.Class) → List (String × Binding.Class)
  | [] => [(name, c)]
  | e :: es => if e.1 = name then (name, c) :: es else e :: put name c es

/-- A name that is not there is added at the end. -/
theorem put_of_notMem {name : String} {c : Binding.Class} {es : List (String × Binding.Class)}
    (new : name ∉ es.map (·.1)) : put name c es = es ++ [(name, c)] := by
  induction es with
  | nil => rfl
  | cons e es ih =>
    rw [List.map_cons, List.mem_cons, not_or] at new
    rw [put, if_neg (Ne.symm new.1), ih new.2]
    rfl

/-- A name that is there keeps its place. -/
theorem names_put_of_mem {name : String} {c : Binding.Class} {es : List (String × Binding.Class)}
    (known : name ∈ es.map (·.1)) : (put name c es).map (·.1) = es.map (·.1) := by
  induction es with
  | nil => cases known
  | cons e es ih =>
    rw [put]
    split
    · rename_i same
      rw [List.map_cons, List.map_cons, same]
    · rename_i other
      rw [List.map_cons, List.map_cons, ih ((List.mem_cons.mp known).resolve_left (Ne.symm other))]

/-- Registering does not make two of one name. -/
theorem nodup_names_put {name : String} {c : Binding.Class} {es : List (String × Binding.Class)}
    (distinct : (es.map (·.1)).Nodup) : ((put name c es).map (·.1)).Nodup := by
  by_cases known : name ∈ es.map (·.1)
  · rw [names_put_of_mem known]
    exact distinct
  · rw [put_of_notMem known, List.map_append]
    refine List.nodup_append.mpr ⟨distinct, List.pairwise_singleton _ _, ?_⟩
    intro old there other added same
    have same : old = name := same.trans (List.mem_singleton.mp added)
    exact known (same ▸ there)

/-- Registers a class. A name that is registered already keeps its place. -/
def register (r : Registry) (name : String) (c : Binding.Class) : Registry :=
  ⟨put name c r.entries, nodup_names_put r.nodup_names⟩

/-- The classes of a model, children before parents. -/
def ofModel (m : Binding.Model) : Registry :=
  m.registration.foldl (fun r name => ((m.class? name).map (r.register name)).getD r) empty

/-- The registry of a document. -/
def ofDocument (doc : Document) : Registry := ofModel (.ofDocument doc)

/-- The registered names in order. -/
def interfaces (r : Registry) : List String := r.entries.map (·.1)

theorem nodup_interfaces (r : Registry) : r.interfaces.Nodup := r.nodup_names

/-- The class that stands for a name. -/
def class? (r : Registry) (name : String) : Option Binding.Class :=
  (r.entries.find? (·.1 == name)).map (·.2)

/-- Whether a name is registered. -/
def contains (r : Registry) (name : String) : Bool := (r.class? name).isSome

/-- How many names are registered. -/
def size (r : Registry) : Nat := r.entries.length

/-- The contract at an address as an interface sees it. -/
def contract? (r : Registry) (name : String) (address : Address) : Option Contract :=
  (r.class? name).map (⟨·, address⟩)

/-- A registry in words. -/
def describe (r : Registry) : String :=
  "BindingRegistry \x7b interfaces: [" ++
    ", ".intercalate (r.interfaces.map Text.Quoted.quote) ++ "] \x7d"

end Registry

end ContractAbi
