import Mathlib.Data.List.Induction
import ContractAbi.Proofs.Inheritance.Resolved

/-!
# Lineages and members

The lineage of an interface is the chain of the parents that are kept, up to the longest lineage
that is followed; it repeats no name, for a kept parent stands in front of its child in the order.
The members are the references along the lineage that name something, each name where it first
occurs.
-/

namespace ContractAbi

/-- The references of one kind that an interface lists itself. -/
def Interface.references (i : Interface) : ReferenceKind → List String
  | .getMethod => i.getMethods
  | .inbound => i.inbound
  | .outbound => i.outbound

/-- The members of one kind. -/
def Members.ofKind (m : Members) : ReferenceKind → List String
  | .getMethod => m.getMethods
  | .inbound => m.inbound
  | .outbound => m.outbound

namespace Document

/-- The references of one kind that the first interface of a name lists. -/
def referencesOf (doc : Document) (kind : ReferenceKind) (name : String) : List String :=
  ((doc.interface? name).map (·.references kind)).getD []

/-- Whether a reference of a kind names a get-method, or a message with a definition. -/
def resolves (doc : Document) : ReferenceKind → String → Bool
  | .getMethod, name => (doc.getMethod? name).isSome
  | .inbound, name | .outbound, name => (doc.definition? name).isSome

end Document

namespace Inheritance

/-- The entries of a list that are at no earlier place of it. -/
def firstOccurrences (xs : List String) : List String :=
  (xs.zipIdx.filter fun entry => entry.1 ∉ xs.take entry.2).map Prod.fst

theorem firstOccurrences_concat (xs : List String) (x : String) :
    firstOccurrences (xs ++ [x]) =
      if x ∈ xs then firstOccurrences xs else firstOccurrences xs ++ [x] := by
  have earlier : xs.zipIdx.filter (fun entry => entry.1 ∉ (xs ++ [x]).take entry.2) =
      xs.zipIdx.filter fun entry => entry.1 ∉ xs.take entry.2 := by
    refine List.filter_congr fun entry member => ?_
    have inside : entry.2 < xs.length := by simpa using List.snd_lt_of_mem_zipIdx member
    rw [List.take_append_of_le_length (Nat.le_of_lt inside)]
  rw [firstOccurrences, List.zipIdx_append, List.filter_append, earlier, List.map_append]
  by_cases known : x ∈ xs
  · simp [known, firstOccurrences]
  · simp [known, firstOccurrences]

theorem mem_firstOccurrences {xs : List String} {x : String} :
    x ∈ firstOccurrences xs ↔ x ∈ xs := by
  induction xs using List.reverseRecOn with
  | nil => rfl
  | append_singleton xs y ih =>
    rw [firstOccurrences_concat]
    by_cases known : y ∈ xs
    · rw [if_pos known, ih, List.mem_append, List.mem_singleton]
      exact ⟨Or.inl, fun member => member.elim id fun same => same ▸ known⟩
    · rw [if_neg known, List.mem_append, ih, List.mem_append]

theorem nodup_firstOccurrences (xs : List String) : (firstOccurrences xs).Nodup := by
  induction xs using List.reverseRecOn with
  | nil => exact .nil
  | append_singleton xs x ih =>
    rw [firstOccurrences_concat]
    by_cases known : x ∈ xs
    · rwa [if_pos known]
    · rw [if_neg known]
      have new : x ∉ firstOccurrences xs := fun member => known (mem_firstOccurrences.mp member)
      exact List.nodup_append.mpr ⟨ih, List.pairwise_singleton _ x, by
        rintro y member _ single rfl
        exact new (List.mem_singleton.mp single ▸ member)⟩

/-- Erasing what occurs again leaves first occurrences. -/
theorem eraseDups_eq_firstOccurrences (xs : List String) :
    xs.eraseDups = firstOccurrences xs := by
  induction xs using List.reverseRecOn with
  | nil => rfl
  | append_singleton xs x ih =>
    rw [firstOccurrences_concat, List.eraseDups_append, ih, List.removeAll]
    by_cases known : x ∈ xs <;> simp [known, List.eraseDups_cons]

/-- What is gathered along a lineage, in terms of the document. -/
theorem gather_eq_firstOccurrences (doc : Document) (refs : Interface → List String)
    (isKnown : String → Bool) (lineage : List String) :
    gather (firstDeclared [] doc.interfaces) refs isKnown lineage = firstOccurrences
      ((lineage.flatMap fun name => ((doc.interface? name).map refs).getD []).filter isKnown) := by
  rw [gather, eraseDups_eq_firstOccurrences, List.filter_flatMap]
  congr 1
  induction lineage with
  | nil => rfl
  | cons name lineage ih =>
    rw [List.flatMap_cons, List.filterMap_cons, lookup_interfaces]
    cases doc.interface? name with
    | none => exact ih
    | some i => exact congrArg ((refs i).filter isKnown ++ ·) ih

variable {parent : String → Option String}

/-- The places of a lineage are the steps to parents. -/
theorem getElem?_lineageWithin (parent : String → Option String) (depth : Nat) (name : String)
    (k : Nat) : (lineageWithin parent depth name)[k]? =
      if k < depth then (Option.bind · parent)^[k] (some name) else none := by
  have ofNone : ∀ n, (Option.bind · parent)^[n] none = none := fun n =>
    Function.iterate_fixed rfl n
  induction depth generalizing name k with
  | zero => rfl
  | succ depth ih =>
    rw [lineageWithin]
    cases k with
    | zero => rfl
    | succ k =>
      rw [List.getElem?_cons_succ, Function.iterate_succ_apply, Option.bind_some]
      cases step : parent name with
      | none => simp [ofNone]
      | some p =>
        rw [ih p k]
        simp only [Nat.succ_lt_succ_iff]

theorem isChain_lineageWithin (parent : String → Option String) (depth : Nat) (name : String) :
    (lineageWithin parent depth name).IsChain fun n p => parent n = some p := by
  induction depth generalizing name with
  | zero => exact .nil
  | succ depth ih =>
    rw [lineageWithin]
    cases step : parent name with
    | none => exact List.isChain_singleton name
    | some p =>
      have rest := ih p
      cases depth with
      | zero => exact List.isChain_singleton name
      | succ depth => exact List.isChain_cons_cons.mpr ⟨step, rest⟩

/-- Where every step lowers a rank, no name comes back. -/
theorem nodup_lineageWithin {rank : String → Nat}
    (lower : ∀ name p, parent name = some p → rank p < rank name) (depth : Nat) (name : String) :
    (lineageWithin parent depth name).Nodup := by
  have transitive : IsTrans String fun n p => rank p < rank n :=
    ⟨fun _ _ _ first second => Nat.lt_trans second first⟩
  have falling : (lineageWithin parent depth name).Pairwise fun n p => rank p < rank n :=
    ((isChain_lineageWithin parent depth name).imp lower).pairwise
  refine falling.imp ?_
  intro n p below same
  exact Nat.ne_of_lt below (congrArg rank same.symm)

end Inheritance

namespace Graph

open Inheritance

/-- The interface that so many steps to kept parents lead to. -/
def ancestor? (g : Graph) (k : Nat) (name : String) : Option String :=
  (Option.bind · g.parent?)^[k] (some name)

/-- No interface occurs twice in a lineage. -/
theorem nodup_lineage_ofDocument {doc : Document} {name : String}
    (declared : name ∈ doc.interfaceNames) : ((ofDocument doc).lineage name).Nodup := by
  rw [lineage_ofDocument declared]
  exact nodup_lineageWithin (fun _ _ => idxOf_lt_of_parent?) maxDepth name

/-- The members of a kind, in the order in which the lineage references them. -/
theorem ofKind_membersOf (doc : Document) (lineage : List String) (kind : ReferenceKind) :
    (membersOf doc (firstDeclared [] doc.interfaces) lineage).ofKind kind = firstOccurrences
      ((lineage.flatMap (doc.referencesOf kind)).filter (doc.resolves kind)) := by
  cases kind <;> exact gather_eq_firstOccurrences doc _ _ lineage

/-- No member comes twice. -/
theorem nodup_members {doc : Document} {name : String} (declared : name ∈ doc.interfaceNames)
    {members : Members} (found : (ofDocument doc).members? name = some members)
    (kind : ReferenceKind) : (members.ofKind kind).Nodup := by
  rw [members?_ofDocument declared] at found
  cases found
  rw [ofKind_membersOf]
  exact nodup_firstOccurrences _

/-- A member of an interface is a name that resolves and that one of its lineage references. -/
theorem mem_ofKind_iff {doc : Document} {name : String} (declared : name ∈ doc.interfaceNames)
    {members : Members} (found : (ofDocument doc).members? name = some members)
    {kind : ReferenceKind} {member : String} : member ∈ members.ofKind kind ↔
      (∃ a ∈ (ofDocument doc).lineage name, member ∈ doc.referencesOf kind a) ∧
        doc.resolves kind member = true := by
  rw [members?_ofDocument declared] at found
  cases found
  rw [ofKind_membersOf, mem_firstOccurrences, List.mem_filter, List.mem_flatMap]

/-- Every member names something. -/
theorem resolves_of_mem {doc : Document} {name : String} (declared : name ∈ doc.interfaceNames)
    {members : Members} (found : (ofDocument doc).members? name = some members)
    (kind : ReferenceKind) {member : String} (listed : member ∈ members.ofKind kind) :
    doc.resolves kind member = true :=
  ((mem_ofKind_iff declared found).mp listed).2

/-- The lineage of a declared interface holds its ancestors in order, itself first, and none twice;
no more than 64 are followed. Its members of each kind are what the interfaces of the lineage
reference, as far as it names something, each name where it first occurs. -/
theorem lineage_members_ofDocument (doc : Document) {name : String}
    (declared : name ∈ doc.interfaceNames) :
    (∀ k, ((ofDocument doc).lineage name)[k]? =
        if k < 64 then (ofDocument doc).ancestor? k name else none) ∧
      ((ofDocument doc).lineage name).Nodup ∧
      ∃ members, (ofDocument doc).members? name = some members ∧
        ∀ kind, members.ofKind kind = firstOccurrences
          ((((ofDocument doc).lineage name).flatMap (doc.referencesOf kind)).filter
            (doc.resolves kind)) := by
  refine ⟨?_, nodup_lineage_ofDocument declared, _, members?_ofDocument declared, ?_⟩
  · intro k
    rw [lineage_ofDocument declared]
    exact getElem?_lineageWithin _ maxDepth name k
  · exact ofKind_membersOf doc _

/-- An interface below another one. A second interface has its name, `lost` names nothing, `bad` is
malformed, and both interfaces reference `shared` and `go`. -/
def layered : Document where
  interfaces :=
    [⟨"item", some "base", none, ["own", "lost", "shared", "own"], ["go"], []⟩,
      ⟨"item", none, none, ["hidden"], [], ["go"]⟩,
      ⟨"base", none, none, ["top", "shared"], ["bad", "go"], []⟩]
  getMethods := [⟨"own", [], []⟩, ⟨"shared", [], []⟩, ⟨"top", [], []⟩, ⟨"hidden", [], []⟩]
  messages :=
    [⟨"go", .parsed ⟨"go", ⟨"1a", by decide, by decide, by decide⟩, [], "Body"⟩⟩,
      ⟨"bad", .malformed "bad" "no opcode"⟩]

/-- The interface of the description has its own members before those that it inherits. -/
theorem lineage_members_layered :
    "item" ∈ layered.interfaceNames ∧
      (ofDocument layered).lineage "item" = ["item", "base"] ∧
      ∃ members, (ofDocument layered).members? "item" = some members ∧
        members.ofKind .getMethod = ["own", "shared", "top"] ∧
        members.ofKind .inbound = ["go"] ∧ members.ofKind .outbound = [] := by
  have declared : "item" ∈ layered.interfaceNames := by decide
  have lineage : (ofDocument layered).lineage "item" = ["item", "base"] := by decide +kernel
  obtain ⟨-, -, members, found, kinds⟩ := lineage_members_ofDocument layered declared
  rw [lineage] at kinds
  refine ⟨declared, lineage, members, found, ?_, ?_, ?_⟩
  · rw [kinds]
    decide
  · rw [kinds]
    decide
  · rw [kinds]
    decide

end Graph

end ContractAbi
