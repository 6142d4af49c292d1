import ScopedXml.Reader.Parse
import ScopedXml.Scope.Chain

/-!
# Sessions

A session reads documents one after the other. A handler has to be installed for each document; when
the document was read, the handler is kept until it is taken or the next one is installed. A failed
parse leaves no handler behind. The error policy stays as it is from one parse to the next.
-/

namespace ScopedXml

open Scope

structure Session (H N P : Type) where
  reader : DocumentReader
  chain : Option (Chain H N)
  completed : Option H
  policy : P

/-- What a parse leaves besides the session: how it ended, the notes of the handlers, and the state
of the policy that it used. -/
structure ParseReport (N P : Type) where
  outcome : Except ReadFailure Unit
  notes : List N
  policy : P

namespace Session

variable {H N P : Type} [Text.Decoders]

def ofReader (reader : DocumentReader) (policy : P) : Session H N P := ⟨reader, none, none, policy⟩

/-- Install a handler for the root element of the next document. -/
def install (s : Session H N P) (root : H) : Session H N P :=
  { s with chain := some (.ofRoot root), completed := none }

def setPolicy (s : Session H N P) (policy : P) : Session H N P := { s with policy := policy }

/-- Read a document under a policy with this state. The installed handler is used up. -/
def parseUnder {Q : Type} (hs : Handlers H N) (policy : Policy Q) (state : Q)
    (s : Session H N P) (input : Input) : ParseReport N Q × Session H N P :=
  match s.chain with
  | none => (⟨.error .noActiveHandler, [], state⟩, s)
  | some chain =>
    let (outcome, state, chain) := s.reader.parse input policy (Chain.receiver hs) state chain
    let idle := { s with chain := none }
    match outcome with
    | .error e => (⟨.error e, chain.log, state⟩, idle)
    | .ok () => (⟨.ok (), chain.log, state⟩, { idle with completed := chain.completed })

/-- Read a document under the policy of the session. -/
def parse (hs : Handlers H N) (policy : Policy P) (s : Session H N P) (input : Input) :
    ParseReport N P × Session H N P :=
  let (report, s) := s.parseUnder hs policy s.policy input
  (report, { s with policy := report.policy })

/-- Take the handler of the last document out of the session, if it is one of those asked for. -/
def take (s : Session H N P) (wanted : H → Bool) : Option H × Session H N P :=
  match s.completed with
  | some h => if wanted h then (some h, { s with completed := none }) else (none, s)
  | none => (none, s)

/-- Install a handler, read a document and take the handler out again. -/
def parseWith (hs : Handlers H N) (policy : Policy P) (s : Session H N P) (root : H)
    (wanted : H → Bool) (input : Input) :
    ParseReport N P × Except ReadFailure H × Session H N P :=
  let (report, s) := (s.install root).parse hs policy input
  match report.outcome with
  | .error e => (report, .error e, s)
  | .ok () =>
    match s.take wanted with
    | (some h, s) => (report, .ok h, s)
    | (none, s) => (report, .error .noActiveHandler, s)

/-- The session in messages. -/
def shown (hs : Handlers H N) (s : Session H N P) : String :=
  Text.shownSomeFields "SaxParser"
    [("reader", s.reader.shown),
     ("chain", Text.shownOption (s.chain.map (·.shown hs))),
     ("completed", Text.shownOption (s.completed.map fun h =>
       Text.shownFields "CompletedScope" [("handler", Text.quoted (hs.typeName h))]))]

end Session

end ScopedXml
