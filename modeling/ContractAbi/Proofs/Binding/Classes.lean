import ContractAbi.Binding.Model
import ContractAbi.Proofs.Binding.Fields
import ContractAbi.Proofs.Inheritance.Lineage

/-!
# The classes of a model

A model has the classes of its interfaces in the order of the graph (`Model.interfaces_classes`),
and a class has the queries and sends of the members of its interface (`Model.exists_membersOf`). No
member is lost on the way, for every member names something. The queries of a class are those of the
get-methods that its members name, whatever names are taken (`Model.shapes_queries`).
-/

namespace ContractAbi

/-- A look-up that finds something for each name finds one entry for each name, in order. -/
theorem map_filterMap_of_isSome {α : Type} {look : String → Option α} {key : α → String}
    (keyed : ∀ name a, look name = some a → key a = name) {names : List String}
    (all : ∀ name ∈ names, (look name).isSome = true) :
    (names.filterMap look).map key = names := by
  induction names with
  | nil => rfl
  | cons name names ih =>
    obtain ⟨a, found⟩ := Option.isSome_iff_exists.mp (all name List.mem_cons_self)
    rw [List.filterMap_cons_some found, List.map_cons, keyed name a found]
    rw [ih fun other listed => all other (List.mem_cons_of_mem _ listed)]

/-- What is found under a name has this name. -/
theorem Document.name_of_interface? {doc : Document} (name : String) (i : Interface)
    (found : doc.interface? name = some i) : i.name = name := by
  simpa using List.find?_some found

theorem Document.name_of_getMethod? {doc : Document} (name : String) (g : GetMethod)
    (found : doc.getMethod? name = some g) : g.name = name := by
  simpa using List.find?_some found

theorem Document.isSome_interface? {doc : Document} {name : String} :
    (doc.interface? name).isSome = true ↔ name ∈ doc.interfaceNames :=
  isSome_find?_key

namespace Binding

/-- What a query keeps of its get-method: the name, the arguments and the results. -/
def Query.shape (q : Query) : String × List Field × List Field :=
  (q.method, q.inputs, q.result.fields)

/-- The shape that the query of a get-method has. -/
def shapeOf (g : GetMethod) : String × List Field × List Field :=
  (g.name, fieldsOf Category.ofParameter g.inputs, fieldsOf Category.ofParameter g.outputs)

theorem fields_resultOf (g : GetMethod) (scope : Scope) :
    ((resultOf g).run scope).1.fields = fieldsOf Category.ofParameter g.outputs := by
  rw [resultOf]
  cases fieldsOf Category.ofParameter g.outputs with
  | nil => rfl
  | cons first rest => cases rest <;> rfl

/-- What a query asks for is read off its get-method, whatever names it gets. -/
theorem shape_queryOf (g : GetMethod) (scope : Scope) :
    ((queryOf g).run scope).1.shape = shapeOf g := by
  have results := fields_resultOf g
  unfold queryOf
  by_cases empty : (fieldsOf Category.ofParameter g.inputs).isEmpty = true
  · simp only [empty, if_true]
    exact Prod.ext rfl (Prod.ext rfl (results _))
  · simp only [empty]
    exact Prod.ext rfl (Prod.ext rfl (results _))

/-- The queries of a class are those of its get-methods, in their order. -/
theorem map_queries_membersOf (doc : Document) (table : MessageTable) (members : Members)
    (scope : Scope) : ((membersOf doc table members).run scope).1.1.map (·.shape) =
      (members.getMethods.filterMap doc.getMethod?).map shapeOf :=
  map_mapM shape_queryOf _ scope

namespace Model

variable {doc : Document} {c : Class}

theorem mem_order {name : String} :
    name ∈ (Graph.ofDocument doc).order ↔ name ∈ doc.interfaceNames :=
  (Graph.perm_order_ofDocument doc).mem_iff.trans Inheritance.mem_interfaceNames

/-- There is one class for each interface, in the order of the graph. -/
theorem interfaces_classes (doc : Document) :
    (ofDocument doc).classes.map (·.interface) = (Graph.ofDocument doc).order := by
  have each := map_mapM
    (f := classOf doc (Graph.ofDocument doc) (MessageTable.ofMessages doc.messages))
    (g := (·.interface)) (h := (·.name)) (fun _ _ => rfl)
    ((Graph.ofDocument doc).order.filterMap doc.interface?) .empty
  refine each.trans (map_filterMap_of_isSome Document.name_of_interface? ?_)
  intro name listed
  exact Document.isSome_interface?.mpr (mem_order.mp listed)

/-- Every declared interface has a class. -/
theorem exists_class {name : String} (declared : name ∈ doc.interfaceNames) :
    ∃ c ∈ (ofDocument doc).classes, c.interface = name := by
  rw [← mem_order, ← interfaces_classes] at declared
  exact List.mem_map.mp declared

theorem mem_interfaceNames_of_mem (member : c ∈ (ofDocument doc).classes) :
    c.interface ∈ doc.interfaceNames := by
  apply mem_order.mp
  rw [← interfaces_classes]
  exact List.mem_map_of_mem member

/-- Every class has members in the graph. -/
theorem exists_members (member : c ∈ (ofDocument doc).classes) :
    ∃ members, (Graph.ofDocument doc).members? c.interface = some members :=
  ⟨_, Graph.members?_ofDocument (mem_interfaceNames_of_mem member)⟩

section

variable (member : c ∈ (ofDocument doc).classes) {members : Members}
  (found : (Graph.ofDocument doc).members? c.interface = some members)

include member found

/-- A class has the queries and the sends of the members of its interface. -/
theorem exists_membersOf : ∃ scope, (c.queries, c.sends) =
    ((membersOf doc (MessageTable.ofMessages doc.messages) members).run scope).1 := by
  obtain ⟨i, listed, names, rfl⟩ := exists_of_mem_mapM member
  refine ⟨.ofClass ((ClassNames.claim i.name).run names).1.1, ?_⟩
  have known : ((Graph.ofDocument doc).members? i.name).getD .empty = members :=
    congrArg (Option.getD · Members.empty) found
  rw [← known]
  rfl

/-- The queries of a class are made of the get-methods among its members. -/
theorem shapes_queries :
    c.queries.map (·.shape) = (members.getMethods.filterMap doc.getMethod?).map shapeOf := by
  obtain ⟨scope, parts⟩ := exists_membersOf member found
  rw [show c.queries = _ from congrArg Prod.fst parts]
  exact map_queries_membersOf doc _ members scope

/-- The queries stand for the get-methods among the members, in order. -/
theorem methods_queries : c.queries.map (·.method) = members.getMethods := by
  have shapes := congrArg (List.map Prod.fst) (shapes_queries member found)
  rw [List.map_map, List.map_map] at shapes
  refine Eq.trans shapes (map_filterMap_of_isSome Document.name_of_getMethod? ?_)
  intro name listed
  exact Graph.resolves_of_mem (mem_interfaceNames_of_mem member) found .getMethod listed

end

/-- No class has two queries of one get-method. -/
theorem nodup_methods (member : c ∈ (ofDocument doc).classes) :
    (c.queries.map (·.method)).Nodup := by
  obtain ⟨members, found⟩ := exists_members member
  rw [methods_queries member found]
  exact Graph.nodup_members (mem_interfaceNames_of_mem member) found .getMethod

/-- A query of a class is found by the name of its get-method. -/
theorem query?_of_mem (member : c ∈ (ofDocument doc).classes) {q : Query} (listed : q ∈ c.queries) :
    c.query? q.method = some q :=
  find?_key_of_mem (nodup_methods member) listed

/-- A query has the shape of the first get-method of its name. -/
theorem exists_getMethod (member : c ∈ (ofDocument doc).classes) {q : Query}
    (listed : q ∈ c.queries) : ∃ g, doc.getMethod? q.method = some g ∧ q.shape = shapeOf g := by
  obtain ⟨members, found⟩ := exists_members member
  have shape : q.shape ∈ c.queries.map (·.shape) := List.mem_map_of_mem listed
  rw [shapes_queries member found] at shape
  obtain ⟨g, named, same⟩ := List.mem_map.mp shape
  obtain ⟨name, -, first⟩ := List.mem_filterMap.mp named
  refine ⟨g, ?_, same.symm⟩
  have method : g.name = q.method := congrArg Prod.fst same
  rw [← method, Document.name_of_getMethod? name g first]
  exact first

end Model

end Binding

end ContractAbi
