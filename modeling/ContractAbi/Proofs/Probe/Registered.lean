import ContractAbi.Probe.Registry
import ContractAbi.Probe.Target
import ContractAbi.Proofs.Binding.Sends

/-!
# The registry of a document

The registry has the classes of the model in reverse order, each under the name of its interface
(`Registry.entries_ofDocument`): names are registered once, so that each one is added behind those
before it. `Registry.members_ofDocument` follows the members of an interface from the document
through the model to the probes of a target.
-/

namespace ContractAbi

namespace Registry

open Binding (Model)

/-- Names that are registered once are added in their order, as far as they have a class. -/
theorem entries_foldl_register (m : Model) {names : List String} (distinct : names.Nodup)
    {r : Registry} (new : ∀ name ∈ names, name ∉ r.interfaces) :
    (names.foldl (fun r name => ((m.class? name).map (r.register name)).getD r) r).entries =
      r.entries ++ names.filterMap fun name => (m.class? name).map (name, ·) := by
  -- The names still to come stay new, for each of them differs from the one that is registered.
  induction names generalizing r with
  | nil => simp
  | cons name names ih =>
    obtain ⟨unused, rest⟩ := List.nodup_cons.mp distinct
    have later : ∀ other ∈ names, other ∉ r.interfaces := fun other listed =>
      new other (List.mem_cons_of_mem _ listed)
    rw [List.foldl_cons, List.filterMap_cons]
    cases m.class? name with
    | none => exact ih rest later
    | some c =>
      have added : (r.register name c).entries = r.entries ++ [(name, c)] :=
        put_of_notMem (new name List.mem_cons_self)
      rw [Option.map_some, Option.getD_some, ih rest, added]
      · simp
      · intro other listed known
        rw [interfaces, added, List.map_append, List.mem_append] at known
        rcases known with old | same
        · exact later other listed old
        · have same : other = name := by simpa using same
          exact unused (same ▸ listed)

variable {doc : Document} {c : Binding.Class}

/-- The classes of a model have different interfaces. -/
theorem nodup_interfaces_classes (doc : Document) :
    ((Model.ofDocument doc).classes.map (·.interface)).Nodup := by
  rw [Model.interfaces_classes]
  exact (Graph.perm_order_ofDocument doc).nodup_iff.mpr
    (Inheritance.nodup_names_firstDeclared [] doc.interfaces)

/-- The classes of the model are registered last class first. -/
theorem entries_ofDocument (doc : Document) : (ofDocument doc).entries =
    ((Model.ofDocument doc).classes.map fun c => (c.interface, c)).reverse := by
  have order : (Model.ofDocument doc).registration =
      (Model.ofDocument doc).classes.reverse.map (·.interface) := by
    rw [List.map_reverse, Model.interfaces_classes]
    rfl
  have distinct : (Model.ofDocument doc).registration.Nodup := by
    rw [order, List.map_reverse]
    exact List.nodup_reverse.mpr (nodup_interfaces_classes doc)
  rw [ofDocument, ofModel, entries_foldl_register _ distinct (by simp [interfaces, empty]), order,
    List.filterMap_map, ← List.map_reverse, empty, List.nil_append, ← List.filterMap_eq_map]
  refine List.filterMap_congr fun c member => ?_
  have own : (Model.ofDocument doc).class? c.interface = some c :=
    find?_key_of_mem (nodup_interfaces_classes doc) (List.mem_reverse.mp member)
  simp [own]

/-- Interfaces are registered with children first. -/
theorem interfaces_ofDocument (doc : Document) :
    (ofDocument doc).interfaces = (Graph.ofDocument doc).reverseOrder := by
  rw [interfaces, entries_ofDocument, List.map_reverse, List.map_map, Graph.reverseOrder,
    ← Model.interfaces_classes]
  rfl

/-- Each class is found by its interface. -/
theorem contract?_of_mem (member : c ∈ (Model.ofDocument doc).classes) (address : Address) :
    (ofDocument doc).contract? c.interface address = some ⟨c, address⟩ := by
  have listed : (c.interface, c) ∈ (ofDocument doc).entries := by
    rw [entries_ofDocument, List.mem_reverse]
    exact List.mem_map_of_mem member
  have found := find?_key_of_mem (nodup_interfaces _) listed
  rw [contract?, class?, found]
  rfl

/-- Every declared interface has one class, in the order of the graph, and the class has the queries
and sends of its members, all of them and in their order. A query takes and gives what the first
get-method of its name declares. The registry has the classes in reverse order, as targets with the
same probes. -/
theorem members_ofDocument (doc : Document) :
    (Model.ofDocument doc).classes.map (·.interface) = (Graph.ofDocument doc).order ∧
    (∀ name, ((Model.ofDocument doc).classes.map (·.interface)).count name =
      if name ∈ doc.interfaceNames then 1 else 0) ∧
    (Registry.ofDocument doc).interfaces = (Graph.ofDocument doc).reverseOrder ∧
    ∀ c ∈ (Model.ofDocument doc).classes, ∃ members,
      (Graph.ofDocument doc).members? c.interface = some members ∧
      c.queries.map (·.method) = members.getMethods ∧
      c.sends.map (·.message) = members.inbound ∧
      (∀ q ∈ c.queries, ∃ g, doc.getMethod? q.method = some g ∧
        (q.inputs.map fun f => (f.name, f.category)) =
          g.inputs.map (fun p => (p.name, Category.ofParameter p)) ∧
        (q.result.fields.map fun f => (f.name, f.category)) =
          g.outputs.map (fun p => (p.name, Category.ofParameter p))) ∧
      ∀ address, ∃ contract,
        (Registry.ofDocument doc).contract? c.interface address = some contract ∧
        contract.target.queries = members.getMethods ∧
        contract.target.sends = members.inbound := by
  refine ⟨Model.interfaces_classes doc, ?_, interfaces_ofDocument doc, ?_⟩
  · intro name
    rw [(nodup_interfaces_classes doc).count, Model.interfaces_classes]
    simp only [Model.mem_order]
  · intro c member
    obtain ⟨members, found⟩ := Model.exists_members member
    have methods := Model.methods_queries member found
    have messages := Model.messages_sends member found
    refine ⟨members, found, methods, messages, ?_, ?_⟩
    · -- The shape of a query lists the fields of the get-method by name and category.
      intro q listed
      obtain ⟨g, first, shape⟩ := Model.exists_getMethod member listed
      obtain ⟨-, inputs, outputs⟩ : _ ∧ q.inputs = _ ∧ q.result.fields = _ := by
        simpa [Binding.Query.shape, Binding.shapeOf] using shape
      refine ⟨g, first, ?_, ?_⟩
      · rw [inputs]
        exact Binding.map_fieldsOf Category.ofParameter g.inputs
      · rw [outputs]
        exact Binding.map_fieldsOf Category.ofParameter g.outputs
    · intro address
      exact ⟨⟨c, address⟩, contract?_of_mem member address, methods, messages⟩

/-- The class of an interface that inherits, with the members of both. -/
theorem members_ofDocument_layered :
    ∃ c ∈ (Model.ofDocument Graph.layered).classes, c.interface = "item" ∧
      c.queries.map (·.method) = ["own", "shared", "top"] ∧
      c.sends.map (·.message) = ["go"] ∧
      ∃ contract, (ofDocument Graph.layered).contract? "item" .zero = some contract ∧
        contract.target.queries = ["own", "shared", "top"] ∧ contract.target.sends = ["go"] := by
  obtain ⟨order, -, -, classes⟩ := members_ofDocument Graph.layered
  have declared : "item" ∈ (Graph.ofDocument Graph.layered).order := by decide +kernel
  rw [← order] at declared
  obtain ⟨c, member, item⟩ := List.mem_map.mp declared
  obtain ⟨members, found, methods, messages, -, targets⟩ := classes c member
  obtain ⟨contract, registered, queries, sends⟩ := targets .zero
  rw [item] at found registered
  have known : (Graph.ofDocument Graph.layered).members? "item" =
      some ⟨["own", "shared", "top"], ["go"], []⟩ := by decide +kernel
  cases found.symm.trans known
  exact ⟨c, member, item, methods, messages, contract, registered, queries, sends⟩

end Registry

end ContractAbi
