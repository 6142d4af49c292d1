import ScopedXml.Scope.Recording
import ScopedXml.Scope.MediaCatalog
import ScopedXml.Scope.Scripted

/-!
# The handlers of the library

One family that holds all handlers of the library, so that one session can run any of them.
-/

namespace ScopedXml.Scope

inductive AnyHandler
  | recorder (r : Recorder)
  | catalog (c : CatalogHandler)
  | scripted (s : Scripted)

/-- A note of any handler. -/
inductive Note
  | entry (text : String)
  | trace (entry : TraceEntry)

namespace AnyHandler

/-- The reply of one handler, seen within the family. -/
def embed {H N : Type} (handler : H → AnyHandler) (note : N → Note) (r : Reply H N) :
    Reply AnyHandler Note :=
  ⟨handler r.handler, r.tookText, r.notes.map note, r.outcome⟩

/-- The same for an element that opens. -/
def embedStart {H N : Type} (handler : H → AnyHandler) (note : N → Note) (r : StartReply H N) :
    StartReply AnyHandler Note :=
  { embed handler note r.toReply with child := r.child.map handler }

def typeName : AnyHandler → String
  | recorder r => Recorder.handlers.typeName r
  | catalog c => c.typeName
  | scripted s => Scripted.handlers.typeName s

def onStart (h : AnyHandler) (view : View) (name : QualifiedName) (attributes : Attributes) :
    StartReply AnyHandler Note :=
  match h with
  | recorder r => embedStart recorder .entry (r.onStart view name attributes)
  | catalog c => embedStart catalog id (c.onStart view name attributes)
  | scripted s => embedStart scripted .trace (s.onStart view name attributes)

def onText (h : AnyHandler) (view : View) (text : String) : Reply AnyHandler Note :=
  match h with
  | recorder r => .done (recorder r) []
  | catalog c => embed catalog id (c.onText text)
  | scripted s => embed scripted .trace (s.onText view text)

def onEnd (h : AnyHandler) (view : View) (name : QualifiedName) : Reply AnyHandler Note :=
  match h with
  | recorder r => embed recorder .entry (r.onEnd view name)
  | catalog c => embed catalog id (c.onEnd view name)
  | scripted s => embed scripted .trace (s.onEnd view name)

def isLast (h : AnyHandler) (name : QualifiedName) (position : Position) : Bool × List Note :=
  match h with
  | scripted s =>
    let (last, notes) := s.isLast name position
    (last, notes.map .trace)
  | _ => (position.isBoundary, [])

/-- A handler takes over what a child of its own kind has gathered. -/
def onChild (h : AnyHandler) (view : View) (child : AnyHandler) : Reply AnyHandler Note :=
  match h, child with
  | recorder r, recorder c => embed recorder .entry (r.onChild view c)
  | recorder _, _ => .fail h "child handler did not produce an ElementRecord"
  | catalog c, catalog d => embed catalog id (c.onChild d)
  | catalog _, _ => .fail h "unexpected child of DIDL-Lite"
  | scripted s, scripted c => embed scripted .trace (s.onChild view c)
  | scripted _, _ => .done h []

def handlers : Handlers AnyHandler Note where
  typeName := typeName
  onStart := onStart
  onText := onText
  onEnd := onEnd
  isLast := isLast
  onChild := onChild

end AnyHandler

end ScopedXml.Scope
