import ScopedXml.File.Path

/-!
# What is wrong with a schema

* `Flaw`: a declaration that is read well but says nothing that can be compiled.
* `Fault`: why a schema could not be had at all, with the document to blame.
-/

namespace ScopedXml.Schema

/-- What is wrong with a declaration in a schema document. -/
inductive Flaw
  | rootNotSchema
  /-- A declaration of this kind without a name. -/
  | unnamed (kind : String)
  | unsupported (construct : String)
  | unreadableLeast (value : String)
  | unreadableMost (value : String)
  | emptyRange (least most : Nat)
  | crowdedAll
  | noDerivation
deriving DecidableEq

def Flaw.message : Flaw → String
  | rootNotSchema => "Root element must be <xs:schema>"
  | unnamed kind => kind ++ " must have 'name' attribute"
  | unsupported construct => "<xs:" ++ construct ++ "> is not supported"
  | unreadableLeast value => "Invalid minOccurs '" ++ value ++ "'"
  | unreadableMost value => "Invalid maxOccurs '" ++ value ++ "'"
  | emptyRange least most =>
    "maxOccurs " ++ toString most ++ " is smaller than minOccurs " ++ toString least
  | crowdedAll => "<xs:all> may only contain elements that occur at most once"
  | noDerivation => "simpleContent must contain an extension or restriction"

/-- Why a schema could not be compiled. -/
inductive Fault
  /-- A document that is not well-formed. -/
  | malformed (origin message : String)
  | invalid (origin : String) (flaw : Flaw)
  /-- A reference that no document at hand answers. -/
  | unresolved (location : String)
  | notFound (path : File.Path)
  | unreadable (origin message : String)
  /-- There was nothing to compile. -/
  | noSources
deriving DecidableEq

def Fault.message : Fault → String
  | malformed origin m => "Schema parse error in " ++ origin ++ ": " ++ m
  | invalid origin flaw => "Invalid schema in " ++ origin ++ ": " ++ flaw.message
  | unresolved location =>
    "Unresolved schema reference '" ++ location
      ++ "': no local resource is mapped and network access is disabled"
  | notFound path => "Schema file not found: " ++ path.text
  | unreadable origin m => "I/O error reading schema " ++ origin ++ ": " ++ m
  | noSources => "Validating reader requested without schema sources"

end ScopedXml.Schema
