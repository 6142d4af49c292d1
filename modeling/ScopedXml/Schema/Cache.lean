import ScopedXml.Reader.Parse
import ScopedXml.Schema.Compile

/-!
# Caches of compiled schemas

A cache keeps compiled schemas by the documents that their sources held when they were read. Sources
are read again for every request, so a changed file makes a new schema; files that are only referred
to are not looked at. A full cache forgets one of its schemas for each new one.

* `Cache.compile`: the schema of some sources, from the cache if it is there.
* `Cache.build`: a reader, which validates when it is given sources.
-/

namespace ScopedXml.Schema

/-- A compiled schema that several readers may share. `number` tells it from all others that a cache
has compiled. -/
structure Shared where
  number : Nat
  schema : Schema

/-- A cached schema with the documents that it was asked for by. -/
structure Entry where
  key : List Resource
  shared : Shared

/-- Whether two lists hold the same documents. -/
def sameKey : List Resource → List Resource → Bool
  | [], [] => true
  | r :: rs, q :: qs => r.same q && sameKey rs qs
  | _, _ => false

structure Cache where
  /-- How many schemas are kept, if it is not zero. -/
  most : Nat
  entries : List Entry
  /-- How many schemas have been compiled so far. -/
  compiled : Nat

namespace Cache

def ofSize (most : Nat) : Cache := ⟨most, [], 0⟩

/-- How many schemas are kept. -/
def limit (c : Cache) : Nat := max c.most 1

def size (c : Cache) : Nat := c.entries.length

def find? (c : Cache) (key : List Resource) : Option Shared :=
  (c.entries.find? fun e => sameKey e.key key).map (·.shared)

/-- Forget a schema if the cache is full; `victim` picks it. -/
def makeRoom (c : Cache) (victim : Nat) : Cache :=
  if c.limit ≤ c.size then { c with entries := c.entries.eraseIdx (victim % c.size) } else c

/-- Keep a schema that was just compiled. -/
def keep (c : Cache) (key : List Resource) (schema : Schema) : Shared × Cache :=
  let shared : Shared := ⟨c.compiled, schema⟩
  (shared, { c with entries := c.entries ++ [⟨key, shared⟩], compiled := c.compiled + 1 })

/-- The schema of some sources. Sources that cannot be read or compiled leave the cache as it is. -/
def compile (files : File.Tree) (victim : Nat) (sources : List Source) (c : Cache) :
    Except Fault Shared × Cache :=
  if sources.isEmpty then (.error .noSources, c)
  else
    match Source.loadAll files sources with
    | .error f => (.error f, c)
    | .ok key =>
      match c.find? key with
      | some shared => (.ok shared, c)
      | none =>
        match compileResources files key with
        | .error f => (.error f, c)
        | .ok schema =>
          let (shared, c) := (c.makeRoom victim).keep key schema
          (.ok shared, c)

/-- Forget all schemas. -/
def clear (c : Cache) : Cache := { c with entries := [] }

/-- The cache in messages. -/
def shown (c : Cache) : String :=
  Text.shownSomeFields "FactoryCache"
    [("cached_schemas", toString c.size), ("max_schemas", toString c.limit)]

end Cache

/-! ## Readers -/

/-- Whether a reader checks documents against a schema. -/
inductive Mode
  | nonValidating
  | validating
deriving DecidableEq

def Mode.label : Mode → String
  | nonValidating => "NonValidating"
  | validating => "Validating"

/-- Validating just when there are sources. -/
def Mode.ofSources (sources : List Source) : Mode :=
  if sources.isEmpty then .nonValidating else .validating

/-- The reader of a mode, which needs a schema only if it validates. -/
def Mode.reader (mode : Mode) (schema : Option Shared) (settings : ReaderSettings) :
    Except Fault DocumentReader :=
  match mode, schema with
  | .nonValidating, _ => .ok ⟨none, settings⟩
  | .validating, some s => .ok ⟨some s.schema, settings⟩
  | .validating, none => .error .noSources

/-- A reader for documents of some sources, with the schema that it shares. -/
def Cache.build (files : File.Tree) (victim : Nat) (sources : List Source)
    (settings : ReaderSettings) (c : Cache) :
    Except Fault (Option Shared × DocumentReader) × Cache :=
  match Mode.ofSources sources with
  | .nonValidating => (.ok (none, ⟨none, settings⟩), c)
  | .validating =>
    let (answer, c) := c.compile files victim sources
    (answer.map fun s => (some s, ⟨some s.schema, settings⟩), c)

end ScopedXml.Schema
