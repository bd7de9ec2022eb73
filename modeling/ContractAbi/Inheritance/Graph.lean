import ContractAbi.Schema.Warning

/-!
# Inheritance between interfaces

Every interface has at most one parent, so that the interfaces of a document form a forest once
cycles are cut. `Graph.ofDocument` never fails: an interface whose parent is not declared becomes a
root, and the step that closes a cycle is dropped; both are reported as warnings.

Where several interfaces share a name only the first one counts.
-/

namespace ContractAbi

/-- The members of an interface together with those it inherits, each name once. -/
structure Members where
  getMethods : List String
  inbound : List String
  outbound : List String
  deriving DecidableEq

namespace Members

/-- No members at all. -/
def empty : Members := ⟨[], [], []⟩

/-- Nothing that could be probed. Outbound messages do not count. -/
def isEmpty (m : Members) : Bool := m.getMethods.isEmpty && m.inbound.isEmpty

end Members

namespace Inheritance

/-- The interfaces that count: those whose name no earlier one has. -/
def firstDeclared (seen : List String) : List Interface → List Interface
  | [] => []
  | i :: rest =>
    if i.name ∈ seen then firstDeclared seen rest else i :: firstDeclared (i.name :: seen) rest

/-- The interface of a name. -/
def lookup (decls : List Interface) (name : String) : Option Interface :=
  decls.find? (·.name == name)

/-- The declared parent of a name, if the parent is declared as an interface. -/
def declaredParent (decls : List Interface) (name : String) : Option String := do
  let parent ← (← lookup decls name).parent
  if (lookup decls parent).isSome then some parent else none

/-- The warnings on parents that are not declared. -/
def missingParents (decls : List Interface) : List Warning :=
  decls.filterMap fun i =>
    match i.parent with
    | some p => if (lookup decls p).isSome then none else some (.missingParent i.name p)
    | none => none

/-- A walk from an interface towards its ancestors: the interfaces passed, the last one first, those
that no walk has passed yet, and the cycle that the walk closed, if it did. -/
structure Climb where
  path : List String
  fresh : List String
  cycle : Option (List String)
  deriving DecidableEq

/-- Walks on from the last interface of the path until there is no parent, or the parent was passed
by an earlier walk or by this one. -/
def climb (parent : String → Option String) (fresh : List String) (path : List String)
    (node : String) : Climb :=
  match parent node with
  | none => ⟨path, fresh, none⟩
  | some p =>
    if p ∈ fresh then climb parent (fresh.erase p) (p :: path) p
    else if p ∈ path then
      ⟨path, fresh, some (p :: (path.takeWhile (· != p)).reverse ++ [p])⟩
    else ⟨path, fresh, none⟩
termination_by fresh.length
decreasing_by
  rename_i mem
  rw [List.length_erase_of_mem mem]
  exact Nat.sub_lt (List.length_pos_of_mem mem) Nat.zero_lt_one

/-- What the walks so far found: an order with parents first, the interfaces that are left, and the
cycles. -/
structure Sorted where
  order : List String
  fresh : List String
  cycles : List (List String)
  deriving DecidableEq

/-- Adds the walk from one interface, unless an earlier walk passed it. -/
def visit (parent : String → Option String) (s : Sorted) (name : String) : Sorted :=
  if name ∈ s.fresh then
    let c := climb parent (s.fresh.erase name) [name] name
    ⟨s.order ++ c.path, c.fresh, s.cycles ++ c.cycle.toList⟩
  else s

/-- Walks from every name in turn. -/
def sort (parent : String → Option String) (names : List String) : Sorted :=
  names.foldl (visit parent) ⟨[], names, []⟩

/-- The interface whose step to its parent closes the cycle: the last but one of the path. -/
def closer? (cycle : List String) : Option String := cycle.dropLast.getLast?

/-- The longest lineage. -/
def maxDepth : Nat := 64

/-- The interface and its ancestors, nearest first, at most `depth` of them. -/
def lineageWithin (parent : String → Option String) (depth : Nat) (name : String) : List String :=
  match depth with
  | 0 => []
  | depth + 1 =>
    name ::
      match parent name with
      | none => []
      | some p => lineageWithin parent depth p

/-- The references of one kind along a lineage that name something, each name once. -/
def gather (decls : List Interface) (refs : Interface → List String) (isKnown : String → Bool)
    (lineage : List String) : List String :=
  ((lineage.filterMap (lookup decls)).flatMap fun i => (refs i).filter isKnown).eraseDups

/-- The members along a lineage. -/
def membersOf (doc : Document) (decls : List Interface) (lineage : List String) : Members where
  getMethods := gather decls (·.getMethods) (fun n => (doc.getMethod? n).isSome) lineage
  inbound := gather decls (·.inbound) (fun n => (doc.definition? n).isSome) lineage
  outbound := gather decls (·.outbound) (fun n => (doc.definition? n).isSome) lineage

/-- The warnings on references of one kind that name nothing. -/
def dangling (interface : String) (kind : ReferenceKind) (isDeclared : String → Bool)
    (refs : List String) : List Warning :=
  (refs.filter fun n => !isDeclared n).map (.danglingReference interface kind)

/-- The warnings on all references of an interface. A malformed message is declared. -/
def danglingReferences (doc : Document) (i : Interface) : List Warning :=
  dangling i.name .getMethod (fun n => (doc.getMethod? n).isSome) i.getMethods ++
    dangling i.name .inbound (fun n => (doc.message? n).isSome) i.inbound ++
    dangling i.name .outbound (fun n => (doc.message? n).isSome) i.outbound

/-- What is known of one interface. -/
structure Entry where
  name : String
  /-- The parent, unless it is not declared or the step to it was dropped. -/
  parent : Option String
  lineage : List String
  members : Members
  deriving DecidableEq

end Inheritance

open Inheritance

/-- The resolved inheritance of a document. -/
structure Graph where
  /-- Parents before children. -/
  order : List String
  /-- One entry for each name, in declaration order. -/
  entries : List Inheritance.Entry
  warnings : List Warning
  deriving DecidableEq

namespace Graph

/-- Resolves the inheritance of a document. -/
def ofDocument (doc : Document) : Graph :=
  let decls := firstDeclared [] doc.interfaces
  let names := decls.map (·.name)
  let sorted := sort (declaredParent decls) names
  let dropped := sorted.cycles.filterMap closer?
  let parent (name : String) : Option String :=
    if name ∈ dropped then none else declaredParent decls name
  { order := sorted.order
    entries := names.map fun name =>
      let lineage := lineageWithin parent maxDepth name
      ⟨name, parent name, lineage, membersOf doc decls lineage⟩
    warnings := missingParents decls ++ sorted.cycles.map .cycleDetected ++
      decls.flatMap (danglingReferences doc) }

/-- Children before parents. -/
def reverseOrder (g : Graph) : List String := g.order.reverse

/-- The entry of a name. -/
def entry? (g : Graph) (name : String) : Option Inheritance.Entry :=
  g.entries.find? (·.name == name)

/-- Whether the name is declared. -/
def contains (g : Graph) (name : String) : Bool := (g.entry? name).isSome

/-- The parent that an interface keeps. -/
def parent? (g : Graph) (name : String) : Option String := (g.entry? name).bind (·.parent)

/-- An interface followed by its ancestors, nearest first; nothing for an unknown name. -/
def lineage (g : Graph) (name : String) : List String :=
  ((g.entry? name).map (·.lineage)).getD []

/-- The members of an interface together with those it inherits. -/
def members? (g : Graph) (name : String) : Option Members := (g.entry? name).map (·.members)

/-- How many interfaces there are. -/
def size (g : Graph) : Nat := g.entries.length

end Graph

end ContractAbi
