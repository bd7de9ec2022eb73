import ContractAbi.Schema.Document

/-!
# Warnings

What may be wrong with a single record of a description. A warning never stops the work: the record
or the reference in question is left out, and the rest stands. `Document.lint` finds the warnings
that a document alone shows: messages without a definition and names that occur twice.
-/

namespace ContractAbi

/-- The list of an interface that a reference stands in. -/
inductive ReferenceKind where
  | getMethod
  | inbound
  | outbound
  deriving DecidableEq

/-- The list of a document that a record stands in. -/
inductive RecordKind where
  | interface
  | getMethod
  | message
  deriving DecidableEq

/-- A reference list in words. -/
def ReferenceKind.describe : ReferenceKind → String
  | .getMethod => "get-method"
  | .inbound => "inbound message"
  | .outbound => "outbound message"

/-- A record list in words. -/
def RecordKind.describe : RecordKind → String
  | .interface => "interface"
  | .getMethod => "get-method"
  | .message => "message"

/-- A problem that was worked around. -/
inductive Warning where
  /-- The text of a message is no definition. -/
  | malformedMessage (name text reason : String)
  /-- An interface refers to a name that is not declared. -/
  | danglingReference (interface : String) (kind : ReferenceKind) (name : String)
  /-- The parent of an interface is not declared. -/
  | missingParent (interface parent : String)
  /-- Following parents leads back; the last step of the path is dropped. -/
  | cycleDetected (path : List String)
  /-- A name is declared again; it means the first declaration. -/
  | duplicateName (kind : RecordKind) (name : String)
  deriving DecidableEq

namespace Warning

/-- What is reported for a warning. -/
def message : Warning → String
  | .malformedMessage name _ reason =>
    "message '" ++ name ++ "' could not be parsed: " ++ reason
  | .danglingReference interface kind name =>
    kind.describe ++ " '" ++ name ++ "' referenced by interface '" ++ interface ++
      "' is not defined"
  | .missingParent interface parent =>
    "parent interface '" ++ parent ++ "' of '" ++ interface ++ "' is not defined"
  | .cycleDetected path => "inheritance cycle broken: " ++ " -> ".intercalate path
  | .duplicateName kind name =>
    "duplicate " ++ kind.describe ++ " name '" ++ name ++ "'; the first declaration is used"

end Warning

/-- The warning for a record whose name is among those already seen. -/
def repeatWarning (seen : List (RecordKind × String)) (kind : RecordKind) (name : String) :
    List Warning :=
  if (kind, name) ∈ seen then [.duplicateName kind name] else []

/-- The warning for a message without a definition. -/
def Message.malformedWarning (m : Message) : List Warning :=
  match m.body with
  | .parsed _ => []
  | .malformed text reason => [.malformedMessage m.name text reason]

/-- One record of a description. -/
inductive Record where
  | interface (i : Interface)
  | getMethod (g : GetMethod)
  | message (m : Message)
  deriving DecidableEq

namespace Record

/-- The list that the record belongs to. -/
def kind : Record → RecordKind
  | .interface _ => .interface
  | .getMethod _ => .getMethod
  | .message _ => .message

/-- The name that the record declares. -/
def name : Record → String
  | .interface i => i.name
  | .getMethod g => g.name
  | .message m => m.name

/-- The warnings of one record, given the names seen before it. -/
def warnings (seen : List (RecordKind × String)) (r : Record) : List Warning :=
  (match r with
    | .message m => m.malformedWarning
    | _ => []) ++ repeatWarning seen r.kind r.name

/-- The warnings of records in the order in which they come. -/
def allWarnings (seen : List (RecordKind × String)) : List Record → List Warning
  | [] => []
  | r :: rs => r.warnings seen ++ allWarnings ((r.kind, r.name) :: seen) rs

/-- The interface of an interface record. -/
def interface? : Record → Option Interface
  | .interface i => some i
  | _ => none

/-- The get-method of a get-method record. -/
def getMethod? : Record → Option GetMethod
  | .getMethod g => some g
  | _ => none

/-- The message of a message record. -/
def message? : Record → Option Message
  | .message m => some m
  | _ => none

end Record

namespace Document

/-- The document of records in any order. -/
def ofRecords (rs : List Record) : Document :=
  ⟨rs.filterMap Record.interface?, rs.filterMap Record.getMethod?, rs.filterMap Record.message?⟩

/-- The records of a document, list after list. -/
def records (doc : Document) : List Record :=
  doc.interfaces.map .interface ++ doc.getMethods.map .getMethod ++ doc.messages.map .message

/-- The warnings that the document alone shows. -/
def lint (doc : Document) : List Warning := Record.allWarnings [] doc.records

end Document

end ContractAbi
