/-!
# Names and attributes

* `QualifiedName`: a name resolved against the namespace declarations in scope. The prefix is
  kept as written; two names denote the same thing when namespace and local part agree
  (`QualifiedName.Denotes`).
* `Attributes`: the attributes of one element in document order, namespace declarations left
  out. A look-up takes the first attribute that fits.
-/

namespace ScopedXml

/-- An element or attribute name with its namespace, `none` when it is in no namespace. -/
structure QualifiedName where
  space : Option String
  nsPrefix : Option String
  localName : String
deriving DecidableEq

namespace QualifiedName

/-- A name without namespace and prefix. -/
def ofLocal (localName : String) : QualifiedName := ⟨none, none, localName⟩

/-- The name as written: `prefix:local`, or `local` alone. -/
def written (n : QualifiedName) : String :=
  match n.nsPrefix with
  | some p => p ++ ":" ++ n.localName
  | none => n.localName

/-- Whether the name denotes `localName` in `space`, whatever its prefix. -/
def denotes (n : QualifiedName) (space : Option String) (localName : String) : Bool :=
  n.space == space && n.localName == localName

end QualifiedName

/-- One attribute with its references expanded. -/
structure Attribute where
  name : QualifiedName
  value : String
deriving DecidableEq

/-- The attributes of one element, in document order. -/
structure Attributes where
  toList : List Attribute
deriving DecidableEq

namespace Attributes

def empty : Attributes := ⟨[]⟩

instance : EmptyCollection Attributes := ⟨empty⟩

def size (as : Attributes) : Nat := as.toList.length

def isEmpty (as : Attributes) : Bool := as.toList.isEmpty

/-- The value of the first attribute whose name denotes `localName` in `space`. -/
def getIn? (as : Attributes) (space : Option String) (localName : String) : Option String :=
  (as.toList.find? (·.name.denotes space localName)).map (·.value)

/-- The value of the attribute `localName` that is in no namespace. -/
def get? (as : Attributes) (localName : String) : Option String := as.getIn? none localName

/-- The value of the first attribute written as `name`. -/
def getWritten? (as : Attributes) (name : String) : Option String :=
  (as.toList.find? (·.name.written == name)).map (·.value)

/-- The attributes as pairs of written name and value. -/
def writtenPairs (as : Attributes) : List (String × String) :=
  as.toList.map fun a => (a.name.written, a.value)

end Attributes

end ScopedXml
