import ContractAbi.Xml.Text

/-!
# XML documents

The element tree of a document, and the reader that builds it. The reader checks what makes a
document well-formed: one root element, matching tags, attributes that occur once, declared
namespace qualifiers, known references. A document type declaration is refused. Comments and
processing instructions are checked and dropped.

Elements keep their name without its qualifier. An attribute keeps the namespace of its qualifier,
so that a qualified attribute is told from a plain one of the same name.
-/

namespace ContractAbi.Xml

/-- An attribute. One without a qualifier has no namespace. -/
structure Attribute where
  space : Option String
  name : String
  value : String
  deriving DecidableEq

/-- An element or a run of text. -/
inductive Node where
  | element (name : String) (attributes : List Attribute) (children : List Node)
  | text (content : String)

namespace Node

/-- The name of an element. -/
def elementName? : Node → Option String
  | .element name _ _ => some name
  | .text _ => none

/-- The children of an element. -/
def children : Node → List Node
  | .element _ _ children => children
  | .text _ => []

/-- The children that are elements. -/
def elements (n : Node) : List Node := n.children.filter fun c => c.elementName?.isSome

/-- The value of the attribute with the name and no qualifier. -/
def attribute? (n : Node) (name : String) : Option String :=
  match n with
  | .element _ attributes _ =>
    (attributes.find? fun a => a.space == none && a.name == name).map (·.value)
  | .text _ => none

mutual

/-- All text in the node, in document order. -/
def content : Node → List Char
  | .element _ _ children => contents children
  | .text content => content.toList

/-- All text in the nodes, in document order. -/
def contents : List Node → List Char
  | [] => []
  | n :: ns => content n ++ contents ns

end

end Node

/-- The namespace of the qualifier `xml`. -/
def xmlSpace : String := "http://www.w3.org/XML/1998/namespace"

/-- The namespace of the qualifier `xmlns`. -/
def declarationSpace : String := "http://www.w3.org/2000/xmlns/"

/-- The namespaces in force, the nearest declaration first. The default namespace has no
qualifier. -/
abbrev Scope := List (Option (List Char) × String)

/-- Behind a fixed text. -/
def expect (word : String) (cs : List Char) : Option (List Char) := Text.dropHead? word.toList cs

/-- The characters up to the first that `stop` holds of, all of which the document may contain. -/
def spanUntil (stop : Char → Bool) (cs : List Char) : Option (List Char × List Char) :=
  let taken := cs.takeWhile fun c => !stop c
  if taken.all isAllowed then some (taken, cs.dropWhile fun c => !stop c) else none

/-- The characters up to the first occurrence of `mark`, and the text behind it. `seen` holds the
characters before, last first. -/
def readUntil (mark : String) (seen : List Char) : List Char → Option (List Char × List Char)
  | [] => none
  | c :: cs =>
    match expect mark (c :: cs) with
    | some rest => some (seen.reverse, rest)
    | none => if isAllowed c then readUntil mark (c :: seen) cs else none

/-- The text behind a comment whose opening is read. -/
def skipComment (cs : List Char) : Option (List Char) := do
  let (body, rest) ← readUntil "-->" [] cs
  if Text.contains ['-', '-'] body || body.getLast? == some '-' then none else some rest

/-- The text behind a processing instruction whose opening is read. -/
def skipInstruction (cs : List Char) : Option (List Char) := do
  if (expect "xml " cs).isSome then none
  else
    let (_, rest) ← readPlainName cs
    let (_, rest) ← readUntil "?>" [] (skipSpace rest)
    return rest

/-- An attribute as written: its name, and its value between the quotes. -/
def readAttribute (cs : List Char) : Option ((Name × List Char) × List Char) := do
  let (name, rest) ← readName cs
  match skipSpace rest with
  | '=' :: rest =>
    match skipSpace rest with
    | q :: rest =>
      if q = '"' ∨ q = '\'' then
        let (value, rest) ← spanUntil (fun c => c == q || c == '<') rest
        match rest with
        | c :: rest => if c = q then some ((name, value), rest) else none
        | [] => none
      else none
    | [] => none
  | _ => none

/-- The attributes of a tag up to its end, whether the end is `/>`, and the text behind it. `seen`
holds the attributes before, last first. -/
def readAttributes (bound : Nat) (seen : List (Name × List Char)) (cs : List Char) :
    Option ((List (Name × List Char) × Bool) × List Char) :=
  match bound with
  | 0 => none
  | bound + 1 =>
    match skipSpace cs with
    | '/' :: '>' :: rest => some ((seen.reverse, true), rest)
    | '>' :: rest => some ((seen.reverse, false), rest)
    | rest =>
      if cs.head?.any isSpace then
        match readAttribute rest with
        | some (a, rest) => readAttributes bound (a :: seen) rest
        | none => none
      else none

/-- The namespace declarations among the attributes of a tag, and its other attributes, with values
expanded. -/
def declarations (own : Scope) : List (Name × List Char) →
    Option (Scope × List (Name × String))
  | [] => some (own, [])
  | (name, raw) :: rest => do
    let value := String.ofList (← expandValue [] raw)
    if name.qualifier = "xmlns".toList then
      let bound := some name.base
      if value = declarationSpace then none
      else if (name.base = "xml".toList) ≠ (value = xmlSpace) then none
      else if own.any (·.1 == bound) then none
      else declarations (if value = xmlSpace then own else own ++ [(bound, value)]) rest
    else if name.base = "xmlns".toList then
      if value = xmlSpace ∨ value = declarationSpace then none
      else declarations (own ++ [(none, value)]) rest
    else
      let (own, others) ← declarations own rest
      return (own, (name, value) :: others)

/-- The namespace of a qualifier. -/
def resolve (scope : Scope) (qualifier : List Char) : Option (Option String) :=
  match scope.find? (·.1 == (if qualifier = [] then none else some qualifier)) with
  | some (_, space) => some (some space)
  | none => if qualifier = [] then some none else none

/-- The attributes of an element. No two have the same name and namespace. -/
def attributes (scope : Scope) (seen : List Attribute) : List (Name × String) →
    Option (List Attribute)
  | [] => some seen.reverse
  | (name, value) :: rest => do
    let space ←
      if name.qualifier = "xml".toList then some (some xmlSpace)
      else if name.qualifier = [] then some none
      else resolve scope name.qualifier
    let a : Attribute := ⟨space, String.ofList name.base, value⟩
    if seen.any fun b => b.space == a.space && b.name == a.name then none
    else attributes scope (a :: seen) rest

/-- Behind an end tag for the name. -/
def readEndTag (name : Name) (cs : List Char) : Option (List Char) := do
  let (found, rest) ← readName (← expect "</" cs)
  match skipSpace rest with
  | '>' :: rest => if found = name then some rest else none
  | _ => none

mutual

/-- An element whose `<` is read. -/
def readElement (bound : Nat) (scope : Scope) (cs : List Char) : Option (Node × List Char) :=
  match bound with
  | 0 => none
  | bound + 1 => do
    let (name, rest) ← readName cs
    if name.qualifier = "xmlns".toList then none
    else
      let ((raw, isEmpty), rest) ← readAttributes (rest.length + 1) [] rest
      let (own, others) ← declarations [] raw
      let scope := own ++ scope
      let attrs ← attributes scope [] others
      let _ ← resolve scope name.qualifier
      if isEmpty then return (.element (String.ofList name.base) attrs [], rest)
      else
        let (children, rest) ← readContent bound scope [] rest
        let rest ← readEndTag name rest
        return (.element (String.ofList name.base) attrs children, rest)

/-- The content of an element up to its end tag. `seen` holds the nodes before, last first. -/
def readContent (bound : Nat) (scope : Scope) (seen : List Node) (cs : List Char) :
    Option (List Node × List Char) :=
  match bound with
  | 0 => none
  | bound + 1 =>
    match cs with
    | [] => none
    | '<' :: '/' :: _ => some (seen.reverse, cs)
    | '<' :: '?' :: rest => do
      let rest ← skipInstruction rest
      readContent bound scope seen rest
    | '<' :: '!' :: '-' :: '-' :: rest => do
      let rest ← skipComment rest
      readContent bound scope seen rest
    | '<' :: '!' :: rest => do
      let (body, rest) ← readUntil "]]>" [] (← expect "[CDATA[" rest)
      readContent bound scope (.text (String.ofList (expandSection [] body)) :: seen) rest
    | '<' :: rest => do
      let (node, rest) ← readElement bound scope rest
      readContent bound scope (node :: seen) rest
    | _ => do
      let (raw, rest) ← spanUntil (· == '<') cs
      if Text.contains ("]]>".toList) raw then none
      else
        let body ← expandText [] false raw
        readContent bound scope (.text (String.ofList body) :: seen) rest

end

/-- The text behind the comments, instructions and white space it starts with. -/
def skipMisc (bound : Nat) (cs : List Char) : Option (List Char) :=
  match bound with
  | 0 => none
  | bound + 1 =>
    match skipSpace cs with
    | '<' :: '!' :: '-' :: '-' :: rest => do
      let rest ← skipComment rest
      skipMisc bound rest
    | '<' :: '?' :: rest => do
      let rest ← skipInstruction rest
      skipMisc bound rest
    | rest => some rest

/-- White space, or nothing before the end of the declaration. -/
def declarationSpaceOrEnd (cs : List Char) : Option (List Char) :=
  if cs.head?.any isSpace || (expect "?>" cs).isSome then some (skipSpace cs) else none

/-- The text behind the XML declaration, if there is one. Its version and encoding may be
anything. -/
def skipDeclaration (cs : List Char) : Option (List Char) :=
  match expect "<?xml " cs with
  | none => some cs
  | some rest => do
    let rest := skipSpace rest
    let _ ← expect "version" rest
    let (_, rest) ← readAttribute rest
    let rest ← declarationSpaceOrEnd rest
    let rest ←
      if (expect "encoding" rest).isSome then
        match readAttribute rest with
        | some (_, rest) => declarationSpaceOrEnd rest
        | none => none
      else some rest
    let rest ←
      if (expect "standalone" rest).isSome then (readAttribute rest).map (·.2) else some rest
    expect "?>" (skipSpace rest)

/-- Without the byte order mark. -/
def skipMark (cs : List Char) : List Char :=
  match cs with
  | c :: rest => if c.toNat = 0xFEFF then rest else cs
  | [] => []

/-- The root element of a well-formed document. -/
def parse (text : String) : Option Node := do
  let cs := skipMark text.toList
  let bound := 2 * cs.length + 2
  let rest ← skipMisc bound (← skipDeclaration cs)
  match rest with
  | '<' :: rest =>
    let (root, rest) ← readElement bound [] rest
    let rest ← skipMisc bound rest
    if rest.isEmpty then some root else none
  | _ => none

end ContractAbi.Xml
