import ContractAbi.Text.Ascii

/-!
# Where descriptions come from
-/

namespace ContractAbi

/-- A description in a file or on the web. -/
inductive Source where
  | file (path : String)
  | url (address : String)
  deriving DecidableEq

namespace Source

/-- The source that an argument stands for: an address if it starts like one, and else a path. -/
def ofArgument (text : String) : Source :=
  if "http://".toList.isPrefixOf text.toList || "https://".toList.isPrefixOf text.toList then
    .url text
  else .file text

/-- The path or the address. -/
def text : Source → String
  | .file path => path
  | .url address => address

/-- The part of a source that shows what it holds: an address counts up to its query or fragment. -/
def stem : Source → List Char
  | .file path => path.toList
  | .url address => address.toList.takeWhile fun c => c != '?' && c != '#'

/-- Whether the source holds the dump of a document rather than XML. -/
def isDump (s : Source) : Bool := ".json".toList.isSuffixOf (Text.lower s.stem)

end Source

end ContractAbi
