import ScopedXml.Name
import ScopedXml.Text.WhiteSpace

/-!
# Namespace scopes

Every open element contributes its own declarations. A prefix is looked up from the innermost
element outwards; an unprefixed element name takes the default namespace, an unprefixed attribute
name none.

* `Scopes.enter`, `Scopes.leave`: an element opens and closes.
* `Scopes.element`, `Scopes.attr`: what a name denotes where it stands.
-/

namespace ScopedXml.Namespace

/-- The namespace of the prefix `xml`. -/
def xmlUri : String := "http://www.w3.org/XML/1998/namespace"

/-- The namespace of the declarations themselves, which nothing may be bound to. -/
def xmlnsUri : String := "http://www.w3.org/2000/xmlns/"

/-- A declaration of a prefix, or of the default namespace. An empty URI takes the default
namespace away. -/
structure Declaration where
  nsPrefix : Option String
  uri : String
deriving DecidableEq

/-- Why a declaration or a name cannot stand. -/
inductive Fault
  | declaredXmlns
  | reboundXml (uri : String)
  | reserved (uri : String) (nsPrefix : Option String)
  | emptyUri (nsPrefix : String)
  | undeclared (nsPrefix : String)
  | malformedName (name : String)
deriving DecidableEq

def Fault.message : Fault → String
  | declaredXmlns => "The prefix 'xmlns' must not be declared"
  | reboundXml uri => "The prefix 'xml' cannot be bound to '" ++ uri ++ "'"
  | reserved uri p =>
    "Namespace '" ++ uri ++ "' is reserved and cannot be bound to " ++
      (match p with
      | some p => "prefix '" ++ p ++ "'"
      | none => "the default namespace")
  | emptyUri p => "Namespace prefix '" ++ p ++ "' cannot be undeclared"
  | undeclared p => "Namespace prefix '" ++ p ++ "' is not declared"
  | malformedName name => "Malformed qualified name '" ++ name ++ "'"

/-- The rules on the reserved prefixes and namespaces. -/
def Declaration.check (d : Declaration) : Except Fault Unit :=
  if d.nsPrefix = some "xmlns" then .error .declaredXmlns
  else if d.nsPrefix = some "xml" then
    if d.uri = xmlUri then .ok () else .error (.reboundXml d.uri)
  else if d.uri = xmlUri ∨ d.uri = xmlnsUri then .error (.reserved d.uri d.nsPrefix)
  else
    match d.nsPrefix with
    | some p => if d.uri.isEmpty then .error (.emptyUri p) else .ok ()
    | none => .ok ()

/-- A written name in its two parts. With a colon there must be just one, and text on both sides
of it. -/
def splitName (name : String) : Except Fault (Option String × String) :=
  match Text.splitAtFirst? ':' name.toList with
  | none => .ok (none, name)
  | some (p, l) =>
    if p.isEmpty || l.isEmpty || l.contains ':' then .error (.malformedName name)
    else .ok (some (String.ofList p), String.ofList l)

/-- The declarations of the open elements, the innermost element first. -/
structure Scopes where
  levels : List (List Declaration)
deriving DecidableEq

namespace Scopes

def empty : Scopes := ⟨[]⟩

/-- Enter an element. A declaration against the rules is refused, and then nothing is entered. -/
def enter (s : Scopes) (declarations : List Declaration) : Except Fault Scopes := do
  declarations.forM Declaration.check
  return ⟨declarations :: s.levels⟩

/-- Leave the innermost element. -/
def leave (s : Scopes) : Scopes := ⟨s.levels.drop 1⟩

/-- All declarations, the one that counts first. -/
def declarations (s : Scopes) : List Declaration := s.levels.flatMap List.reverse

/-- The namespace that a prefix, or no prefix, stands for. -/
def lookup? (s : Scopes) (p : Option String) : Option String :=
  ((s.declarations.find? (·.nsPrefix == p)).map (·.uri)).filter (!·.isEmpty)

/-- The namespace of a prefix that has to be declared; `xml` always is. -/
def ofPrefix (s : Scopes) (p : String) : Except Fault String :=
  if p = "xml" then .ok xmlUri
  else
    match s.lookup? (some p) with
    | some uri => .ok uri
    | none => .error (.undeclared p)

/-- What a written name denotes, where unprefixed names are in `unprefixed`. -/
def resolve (s : Scopes) (unprefixed : Option String) (name : String) :
    Except Fault QualifiedName := do
  match ← splitName name with
  | (some p, l) => return ⟨some (← s.ofPrefix p), some p, l⟩
  | (none, l) => return ⟨unprefixed, none, l⟩

def element (s : Scopes) (name : String) : Except Fault QualifiedName :=
  s.resolve (s.lookup? none) name

def attr (s : Scopes) (name : String) : Except Fault QualifiedName := s.resolve none name

end Scopes

end ScopedXml.Namespace
