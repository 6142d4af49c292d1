import ScopedXml.Proofs.Nodes
import ScopedXml.Scope.Chain

/-!
# The callbacks of a chain

* `Call`, `Handlers.traced`: a family of handlers that notes every callback it receives, and all
  that could be seen there.
* `Chain.endElement_inside`, `Chain.endElement_last`: the two ways in which an element can close.
* `Chain.feed_traced`: noting the callbacks changes nothing else.
-/

namespace ScopedXml.Scope

variable {H N M : Type}

/-- A callback of a handler, with its arguments and what the handler can see. -/
inductive Call (H : Type)
  | opened (handler : H) (view : View) (name : QualifiedName) (attributes : Attributes)
  | text (handler : H) (view : View) (text : String)
  | closed (handler : H) (view : View) (name : QualifiedName)
  | completed (handler : H) (view : View) (child : H)

namespace Call

/-- The handler that is called, as it was before. -/
def handler : Call H → H
  | opened h _ _ _ => h
  | text h _ _ => h
  | closed h _ _ => h
  | completed h _ _ => h

def view : Call H → View
  | opened _ view _ _ => view
  | text _ view _ => view
  | closed _ view _ => view
  | completed _ view _ => view

end Call

/-- The same answer with other notes. -/
def Reply.noting (r : Reply H N) (notes : List M) : Reply H M :=
  ⟨r.handler, r.tookText, notes, r.outcome⟩

/-- The same handlers, noting their callbacks. -/
def Handlers.traced (hs : Handlers H N) : Handlers H (Call H) where
  typeName := hs.typeName
  onStart h view name attributes :=
    let reply := hs.onStart h view name attributes
    { reply.toReply.noting [.opened h view name attributes] with child := reply.child }
  onText h view text := (hs.onText h view text).noting [.text h view text]
  onEnd h view name := (hs.onEnd h view name).noting [.closed h view name]
  isLast h name position := ((hs.isLast h name position).1, [])
  onChild h view child := (hs.onChild h view child).noting [.completed h view child]

namespace Chain

/-! ## Elements that close -/

section Closing

variable {hs : Handlers H N} {frame : Frame H} {rest : List (Frame H)} {completed : Option H}
  {k : Nat} {log notes : List N} {name : QualifiedName}

theorem endElement_inside
    (hlast : hs.isLast frame.handler name ⟨frame.depth, k⟩ = (false, notes)) :
    (⟨frame :: rest, completed, k, log⟩ : Chain H N).endElement hs name =
      let reply := hs.onEnd frame.handler (frame.view k) name
      let log := log ++ notes ++ reply.notes
      match reply.outcome with
      | .error e => (.error e, ⟨frame.after reply :: rest, completed, k - 1, log⟩)
      | .ok () =>
        (.ok (), ⟨{ frame.after reply with depth := frame.depth - 1 } :: rest, completed, k - 1,
          log⟩) := by
  simp only [endElement, hlast]
  rfl

theorem endElement_last
    (hlast : hs.isLast frame.handler name ⟨frame.depth, k⟩ = (true, notes)) :
    (⟨frame :: rest, completed, k, log⟩ : Chain H N).endElement hs name =
      let last : Frame H := { frame with attributes := none }
      let reply := hs.onEnd last.handler (last.view k) name
      let log := log ++ notes ++ reply.notes
      let c : Chain H N := ⟨last.after reply :: rest, completed, k - 1, log⟩
      match reply.outcome with
      | .error e => (.error e, c)
      | .ok () => c.retire hs (last.after reply) rest := by
  simp only [endElement, hlast]
  rfl

end Closing

/-! ## Noting changes nothing else -/

/-- The chain with another log. -/
def withLog (c : Chain H N) (log : List M) : Chain H M :=
  ⟨c.stack, c.completed, c.documentDepth, log⟩

/-- The outcomes are equal, and so are the chains but for their logs. -/
def SameButLog (x : Except ReadFailure Unit × Chain H N) (y : Except ReadFailure Unit × Chain H M) :
    Prop :=
  x.1 = y.1 ∧ ∃ log, y.2 = x.2.withLog log

variable {hs : Handlers H N} {c : Chain H N}

theorem sameButLog_startElement (log : List (Call H)) (name : QualifiedName)
    (attributes : Attributes) :
    SameButLog (c.startElement hs name attributes)
      ((c.withLog log).startElement hs.traced name attributes) := by
  obtain ⟨stack, completed, k, notes⟩ := c
  cases stack with
  | nil => exact ⟨rfl, log, rfl⟩
  | cons frame rest =>
    let opened : Frame H :=
      { frame with text := "", attributes := some attributes, depth := frame.depth + 1 }
    simp only [startElement, withLog, Handlers.traced, Reply.noting]
    generalize hs.onStart opened.handler (opened.view (k + 1)) name attributes = reply
    cases reply.outcome with
    | error e => exact ⟨rfl, _, rfl⟩
    | ok _ => cases reply.child <;> exact ⟨rfl, _, rfl⟩

theorem sameButLog_retire (log : List (Call H)) (retired : Frame H) (rest : List (Frame H)) :
    SameButLog (c.retire hs retired rest) ((c.withLog log).retire hs.traced retired rest) := by
  cases rest with
  | nil => exact ⟨rfl, log, rfl⟩
  | cons parent rest => exact ⟨rfl, _, rfl⟩

theorem sameButLog_endElement (log : List (Call H)) (name : QualifiedName) :
    SameButLog (c.endElement hs name) ((c.withLog log).endElement hs.traced name) := by
  obtain ⟨stack, completed, k, notes⟩ := c
  cases stack with
  | nil => exact ⟨rfl, log, rfl⟩
  | cons frame rest =>
    cases hlast : hs.isLast frame.handler name ⟨frame.depth, k⟩ with
    | mk last asked =>
      have htraced : hs.traced.isLast frame.handler name ⟨frame.depth, k⟩ = (last, []) := by
        simp only [Handlers.traced, hlast]
      cases last with
      | false =>
        rw [endElement_inside hlast, withLog, endElement_inside htraced]
        simp only [Handlers.traced, Reply.noting]
        cases (hs.onEnd frame.handler (frame.view k) name).outcome <;> exact ⟨rfl, _, rfl⟩
      | true =>
        let final : Frame H := { frame with attributes := none }
        rw [endElement_last hlast, withLog, endElement_last htraced]
        simp only [Handlers.traced, Reply.noting]
        cases (hs.onEnd final.handler (final.view k) name).outcome with
        | error e => exact ⟨rfl, _, rfl⟩
        | ok _ => exact sameButLog_retire _ _ _

theorem sameButLog_receive (log : List (Call H)) (event : Event) :
    SameButLog (c.receive hs event) ((c.withLog log).receive hs.traced event) := by
  cases event with
  | startDocument =>
    obtain ⟨stack, completed, k, notes⟩ := c
    cases stack <;> exact ⟨rfl, _, rfl⟩
  | startElement name attributes => exact sameButLog_startElement log name attributes
  | characters text =>
    obtain ⟨stack, completed, k, notes⟩ := c
    cases stack <;> exact ⟨rfl, _, rfl⟩
  | endElement name => exact sameButLog_endElement log name
  | endDocument =>
    obtain ⟨stack, completed, k, notes⟩ := c
    match stack with
    | [] => cases completed <;> exact ⟨rfl, _, rfl⟩
    | [_] => exact ⟨rfl, _, rfl⟩
    | _ :: _ :: _ => exact ⟨rfl, _, rfl⟩

theorem feed_traced (c : Chain H N) (log : List (Call H)) (events : List Event) :
    SameButLog ((receiver hs).feed c events)
      ((receiver hs.traced).feed (c.withLog log) events) := by
  induction events generalizing c log with
  | nil => exact ⟨rfl, log, rfl⟩
  | cons event events ih =>
    have hstep : SameButLog ((receiver hs).receive c event)
        ((receiver hs.traced).receive (c.withLog log) event) := sameButLog_receive log event
    rw [Receiver.feed, Receiver.feed]
    generalize (receiver hs).receive c event = untraced at *
    generalize (receiver hs.traced).receive (c.withLog log) event = traced at *
    obtain ⟨answer, next⟩ := untraced
    obtain ⟨answer', next'⟩ := traced
    obtain ⟨houtcome, log', hchain⟩ := hstep
    dsimp only at houtcome hchain
    subst houtcome hchain
    cases answer with
    | error e => exact ⟨rfl, log', rfl⟩
    | ok _ => exact ih next log'

end Chain

end ScopedXml.Scope
