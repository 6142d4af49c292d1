import ScopedXml.Proofs.Scope.Trace

/-!
# Handlers by recursive descent

What a chain of handlers does with a document, written as a recursion over the tree of its elements.
There is no stack: a handler that names a child is a program that runs the child on the content of
the element and goes on with what the child has become.

* `Descent`: a program that calls handlers.
* `Running.node`, `Running.nodes`: a handler at work on one node and on a list of them.
* `descend`: the root handler on a whole document.
-/

namespace ScopedXml.Scope

variable {H N : Type}

/-- A program that makes calls, up to the first one that fails. -/
abbrev Descent (H : Type) := EStateM ReadFailure (List (Call H))

/-- A handler at work, with the text gathered since an element opened and the attributes of the
element that opened last. -/
structure Running (H : Type) where
  handler : H
  text : String
  attributes : Option Attributes

namespace Running

/-- A handler that has seen nothing yet. -/
def fresh (handler : H) : Running H := ⟨handler, "", none⟩

def view (r : Running H) (depth documentDepth : Nat) : View :=
  ⟨r.text, r.attributes, ⟨depth, documentDepth⟩⟩

/-- What a handler goes on with after a reply. -/
def after (r : Running H) (reply : Reply H N) : Running H :=
  ⟨reply.handler, if reply.tookText then "" else r.text, r.attributes⟩

/-- Make a call that is answered with this reply. -/
def call (r : Running H) (c : Call H) (reply : Reply H N) : Descent H (Running H) := do
  modify (· ++ [c])
  match reply.outcome with
  | .ok () => return r.after reply
  | .error e => throw e

/-- What a handler sees when an element opens. -/
def entering (r : Running H) (attributes : Attributes) : Running H :=
  ⟨r.handler, "", some attributes⟩

/-- An element opens. With the handler comes the child that it named. -/
def start (hs : Handlers H N) (depth documentDepth : Nat) (r : Running H) (name : QualifiedName)
    (attributes : Attributes) : Descent H (Running H × Option H) := do
  let r := r.entering attributes
  let view := r.view depth documentDepth
  let reply := hs.onStart r.handler view name attributes
  let r ← r.call (.opened r.handler view name attributes) reply.toReply
  return (r, reply.child)

/-- Text arrives. -/
def hear (hs : Handlers H N) (depth documentDepth : Nat) (r : Running H) (text : String) :
    Descent H (Running H) :=
  let r : Running H := { r with text := r.text ++ text }
  let view := r.view depth documentDepth
  r.call (.text r.handler view text) (hs.onText r.handler view text)

/-- What a handler sees when an element closes: at its own element there are no attributes any
more. -/
def leaving (r : Running H) (depth : Nat) : Running H :=
  { r with attributes := if depth = 1 then none else r.attributes }

/-- An element closes. -/
def close (hs : Handlers H N) (depth documentDepth : Nat) (r : Running H) (name : QualifiedName) :
    Descent H (Running H) :=
  let r := r.leaving depth
  let view := r.view depth documentDepth
  r.call (.closed r.handler view name) (hs.onEnd r.handler view name)

/-- A child has come to its end. -/
def complete (hs : Handlers H N) (depth documentDepth : Nat) (r : Running H) (child : H) :
    Descent H (Running H) :=
  let view := r.view depth documentDepth
  r.call (.completed r.handler view child) (hs.onChild r.handler view child)

mutual

/-- A handler at work on a node that stands at a depth of its scope. An element with a child of the
handler is the scope of that child; the text from before it is kept for what comes after it. -/
def node (hs : Handlers H N) (depth documentDepth : Nat) (r : Running H) :
    Node → Descent H (Running H)
  | .text s => r.hear hs depth documentDepth s
  | .element name attributes content => do
    let (opened, child) ← r.start hs (depth + 1) (documentDepth + 1) name attributes
    match child with
    | none =>
      let r ← opened.nodes hs (depth + 1) (documentDepth + 1) content
      r.close hs (depth + 1) (documentDepth + 1) name
    | some child =>
      let child ← (fresh child).nodes hs 1 (documentDepth + 1) content
      let child ← child.close hs 1 (documentDepth + 1) name
      ({ opened with text := r.text } : Running H).complete hs depth documentDepth child.handler

def nodes (hs : Handlers H N) (depth documentDepth : Nat) (r : Running H) :
    List Node → Descent H (Running H)
  | [] => return r
  | n :: rest => do
    let r ← r.node hs depth documentDepth n
    r.nodes hs depth documentDepth rest

end

end Running

/-- The root handler on a document: what it has become at the end, and all calls. -/
def descend (hs : Handlers H N) (root : H) (name : QualifiedName) (attributes : Attributes)
    (content : List Node) : EStateM.Result ReadFailure (List (Call H)) H :=
  let program : Descent H H := do
    let r ← (Running.fresh root).node hs 0 0 (.element name attributes content)
    return r.handler
  program []

end ScopedXml.Scope
