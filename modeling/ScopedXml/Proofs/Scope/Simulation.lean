import ScopedXml.Proofs.Scope.Descent
import ScopedXml.Scope.Recording

/-!
# A chain of handlers is a recursive descent

* `Agrees`: what a chain did with some events is what a program did.
* `agrees_nodes`: the stack of a chain follows the recursion over the content of an element.
* `Chain.feed_document`: a whole document.
-/

namespace ScopedXml.Scope

variable {H N : Type}

/-- The outcome of a chain beside the result of a program. If both succeed, the chain is in the
state that belongs to the result; if not, both failed alike after the same calls, and no root has
completed. -/
def Agrees {α : Type} (state : α → List (Call H) → Chain H (Call H))
    (fed : Except ReadFailure Unit × Chain H (Call H)) :
    EStateM.Result ReadFailure (List (Call H)) α → Prop
  | .ok a calls => fed = (.ok (), state a calls)
  | .error e calls => fed.1 = .error e ∧ fed.2.completed = none ∧ fed.2.log = calls

/-- A handler at work as a frame. -/
def Running.frame (r : Running H) (depth : Nat) : Frame H :=
  ⟨r.handler, r.text, r.attributes, depth⟩

/-- The chain whose active handler is `r`. -/
def Running.chain (depth documentDepth : Nat) (paused : List (Frame H)) (r : Running H)
    (calls : List (Call H)) : Chain H (Call H) :=
  ⟨r.frame depth :: paused, none, documentDepth, calls⟩

/-- The chain after an element has opened. The child, if there is one, is active now. -/
def Running.openedChain (depth documentDepth : Nat) (paused : List (Frame H)) (text : String) :
    Running H × Option H → List (Call H) → Chain H (Call H)
  | (r, none), calls => r.chain depth documentDepth paused calls
  | (r, some child), calls =>
    (Running.fresh child).chain 1 documentDepth
      (({ r with text := text } : Running H).frame depth :: paused) calls

/-! ## Programs in sequence -/

theorem Descent.bind_apply {α β : Type} (x : Descent H α) (f : α → Descent H β)
    (calls : List (Call H)) :
    (x >>= f) calls =
      match x calls with
      | .ok a calls => f a calls
      | .error e calls => .error e calls := by
  change EStateM.bind x f calls = _
  unfold EStateM.bind
  cases x calls <;> rfl

theorem agrees_append {α β : Type} {receiver : Receiver (Chain H (Call H))}
    {state : α → List (Call H) → Chain H (Call H)} {after : β → List (Call H) → Chain H (Call H)}
    {c : Chain H (Call H)} {events more : List Event} {x : Descent H α} {f : α → Descent H β}
    {calls : List (Call H)} (hx : Agrees state (receiver.feed c events) (x calls))
    (hf : ∀ a calls, Agrees after (receiver.feed (state a calls) more) (f a calls)) :
    Agrees after (receiver.feed c (events ++ more)) ((x >>= f) calls) := by
  rw [Descent.bind_apply, Receiver.feed_append]
  cases hresult : x calls with
  | ok a calls' =>
    rw [hresult] at hx
    have hfed : receiver.feed c events = (.ok (), state a calls') := hx
    rw [hfed]
    exact hf a calls'
  | error e calls' =>
    rw [hresult] at hx
    obtain ⟨herror, hcompleted, hlog⟩ := hx
    cases hfed : receiver.feed c events with
    | mk answer next =>
      rw [hfed] at herror hcompleted hlog
      cases herror
      exact ⟨rfl, hcompleted, hlog⟩

/-! ## Single events -/

section Events

variable {hs : Handlers H N} {d k : Nat} {paused : List (Frame H)} {r : Running H}
  {calls : List (Call H)} {name : QualifiedName}

theorem Running.call_eq (r : Running H) (c : Call H) (reply : Reply H N) (calls : List (Call H)) :
    r.call c reply calls =
      match reply.outcome with
      | .ok () => .ok (r.after reply) (calls ++ [c])
      | .error e => .error e (calls ++ [c]) := by
  unfold Running.call
  cases reply.outcome <;> rfl

theorem agrees_call {state : Running H → List (Call H) → Chain H (Call H)}
    {fed : Except ReadFailure Unit × Chain H (Call H)} {c : Call H} {reply : Reply H N}
    (hok : reply.outcome = .ok () → fed = (.ok (), state (r.after reply) (calls ++ [c])))
    (herror : ∀ e, reply.outcome = .error e →
      fed.1 = .error e ∧ fed.2.completed = none ∧ fed.2.log = calls ++ [c]) :
    Agrees state fed (r.call c reply calls) := by
  rw [Running.call_eq]
  cases hout : reply.outcome with
  | ok _ => exact hok hout
  | error e => exact herror e hout

theorem agrees_hear (text : String) :
    Agrees (Running.chain d k paused)
      ((Chain.receiver hs.traced).feed (r.chain d k paused calls) [.characters text])
      (r.hear hs d k text calls) := by
  rw [Receiver.feed_singleton]
  apply agrees_call
  · intro hok
    exact Prod.ext hok rfl
  · intro e herror
    exact ⟨herror, rfl, rfl⟩

theorem Running.chain_start (r : Running H) (attributes : Attributes) :
    (r.chain d k paused calls).startElement hs.traced name attributes =
      let opened := r.entering attributes
      let view := opened.view (d + 1) (k + 1)
      let reply := hs.onStart opened.handler view name attributes
      let calls := calls ++ [.opened opened.handler view name attributes]
      let replied := opened.after reply.toReply
      match reply.outcome with
      | .error e => (.error e, replied.chain (d + 1) (k + 1) paused calls)
      | .ok () =>
        (.ok (), openedChain (d + 1) (k + 1) paused r.text (replied, reply.child) calls) := by
  let opened := r.entering attributes
  have hstart : hs.onStart opened.handler (opened.view (d + 1) (k + 1)) name attributes =
      hs.onStart r.handler ⟨"", some attributes, ⟨d + 1, k + 1⟩⟩ name attributes := rfl
  dsimp only
  rw [hstart]
  simp only [Chain.startElement, Running.chain, Running.frame, Handlers.traced, Reply.noting,
    Frame.view]
  generalize hs.onStart r.handler ⟨"", some attributes, ⟨d + 1, k + 1⟩⟩ name attributes = reply
  cases reply.outcome with
  | error e => rfl
  | ok _ => cases reply.child <;> rfl

theorem agrees_start (attributes : Attributes) :
    Agrees (Running.openedChain (d + 1) (k + 1) paused r.text)
      ((Chain.receiver hs.traced).feed (r.chain d k paused calls) [.startElement name attributes])
      (r.start hs (d + 1) (k + 1) name attributes calls) := by
  have hfeed := Receiver.feed_singleton (Chain.receiver hs.traced)
    (r.chain d k paused calls) (.startElement name attributes)
  let opened := r.entering attributes
  let reply := hs.onStart opened.handler (opened.view (d + 1) (k + 1)) name attributes
  rw [hfeed.trans (r.chain_start attributes), Running.start]
  dsimp only
  rw [Descent.bind_apply, Running.call_eq]
  cases reply.outcome with
  | error e => exact ⟨rfl, rfl, rfl⟩
  | ok _ => rfl

theorem Running.chain_inside (r : Running H)
    (hlast : (hs.isLast r.handler name ⟨d + 1, k + 1⟩).1 = false) :
    (r.chain (d + 1) (k + 1) paused calls).endElement hs.traced name =
      let view := r.view (d + 1) (k + 1)
      let reply := hs.onEnd r.handler view name
      match reply.outcome with
      | .error e =>
        (.error e, (r.after reply).chain (d + 1) k paused (calls ++ [.closed r.handler view name]))
      | .ok () =>
        (.ok (), (r.after reply).chain d k paused (calls ++ [.closed r.handler view name])) := by
  have htraced : hs.traced.isLast (r.frame (d + 1)).handler name ⟨(r.frame (d + 1)).depth, k + 1⟩ =
      (false, []) := by
    simp only [Handlers.traced, Running.frame, hlast]
  rw [Running.chain, Chain.endElement_inside htraced, List.append_nil]
  rfl

theorem Running.chain_last (r : Running H)
    (hlast : (hs.isLast r.handler name ⟨1, k + 1⟩).1 = true) :
    (r.chain 1 (k + 1) paused calls).endElement hs.traced name =
      let last := r.leaving 1
      let view := last.view 1 (k + 1)
      let reply := hs.onEnd last.handler view name
      let c := (last.after reply).chain 1 k paused (calls ++ [.closed last.handler view name])
      match reply.outcome with
      | .error e => (.error e, c)
      | .ok () => c.retire hs.traced ((last.after reply).frame 1) paused := by
  have htraced : hs.traced.isLast (r.frame 1).handler name ⟨(r.frame 1).depth, k + 1⟩ =
      (true, []) := by
    simp only [Handlers.traced, Running.frame, hlast]
  rw [Running.chain, Chain.endElement_last htraced, List.append_nil]
  rfl

theorem Running.leaving_of_ne {depth : Nat} (hdepth : depth ≠ 1) : r.leaving depth = r := by
  rw [Running.leaving, if_neg hdepth]

/-- The chain when an element closes that is not the one its handler was made for. -/
theorem agrees_close (hk : hs.KeepsBoundary) (hd : d ≠ 0) (name : QualifiedName) :
    Agrees (Running.chain d k paused)
      ((Chain.receiver hs.traced).feed (r.chain (d + 1) (k + 1) paused calls) [.endElement name])
      (r.close hs (d + 1) (k + 1) name calls) := by
  have hlast : (hs.isLast r.handler name ⟨d + 1, k + 1⟩).1 = false := by
    rw [hk, Position.isBoundary]
    simpa using hd
  have hfeed := Receiver.feed_singleton (Chain.receiver hs.traced)
    (r.chain (d + 1) (k + 1) paused calls) (.endElement name)
  rw [hfeed.trans (r.chain_inside hlast), Running.close, Running.leaving_of_ne (by omega)]
  apply agrees_call
  · intro hok
    dsimp only
    rw [hok]
  · intro e herror
    dsimp only
    rw [herror]
    exact ⟨rfl, rfl, rfl⟩

/-- The chain when the element of the root closes. -/
theorem agrees_close_root (hk : hs.KeepsBoundary) (name : QualifiedName) :
    Agrees (fun r calls => ⟨[], some r.handler, k, calls⟩)
      ((Chain.receiver hs.traced).feed (r.chain 1 (k + 1) [] calls) [.endElement name])
      (r.close hs 1 (k + 1) name calls) := by
  have hlast : (hs.isLast r.handler name ⟨1, k + 1⟩).1 = true := by
    rw [hk]
    rfl
  have hfeed := Receiver.feed_singleton (Chain.receiver hs.traced)
    (r.chain 1 (k + 1) [] calls) (.endElement name)
  rw [hfeed.trans (r.chain_last hlast)]
  apply agrees_call
  · intro hok
    dsimp only
    rw [hok]
    rfl
  · intro e herror
    dsimp only
    rw [herror]
    exact ⟨rfl, rfl, rfl⟩

/-- The chain when the element of a child closes: the parent is told and goes on. -/
theorem agrees_close_child (hk : hs.KeepsBoundary) (parent : Running H) (name : QualifiedName) :
    Agrees (Running.chain d k paused)
      ((Chain.receiver hs.traced).feed
        (r.chain 1 (k + 1) (parent.frame (d + 1) :: paused) calls) [.endElement name])
      ((do
        let child ← r.close hs 1 (k + 1) name
        parent.complete hs d k child.handler : Descent H (Running H)) calls) := by
  have hlast : (hs.isLast r.handler name ⟨1, k + 1⟩).1 = true := by
    rw [hk]
    rfl
  have hfeed := Receiver.feed_singleton (Chain.receiver hs.traced)
    (r.chain 1 (k + 1) (parent.frame (d + 1) :: paused) calls) (.endElement name)
  rw [hfeed.trans (r.chain_last hlast), Descent.bind_apply, Running.close, Running.call_eq]
  dsimp only
  cases (hs.onEnd (r.leaving 1).handler ((r.leaving 1).view 1 (k + 1)) name).outcome with
  | error e => exact ⟨rfl, rfl, rfl⟩
  | ok _ =>
    apply agrees_call
    · intro hok
      exact Prod.ext hok rfl
    · intro e herror
      exact ⟨herror, rfl, rfl⟩

end Events

/-! ## Content -/

section Content

variable {hs : Handlers H N}

mutual

theorem agrees_node (hk : hs.KeepsBoundary) (d k : Nat) (hd : d ≠ 0) (paused : List (Frame H))
    (r : Running H) (calls : List (Call H)) : (n : Node) →
    Agrees (Running.chain d k paused)
      ((Chain.receiver hs.traced).feed (r.chain d k paused calls) n.events)
      (r.node hs d k n calls)
  | .text s => by
    rw [Node.events, Running.node]
    exact agrees_hear s
  | .element name attributes content => by
    rw [Node.events, Running.node, ← List.singleton_append]
    apply agrees_append (agrees_start attributes)
    rintro ⟨opened, child⟩ calls
    cases child with
    | none =>
      have hcontent := agrees_nodes hk (d + 1) (k + 1) (by omega) paused opened calls content
      exact agrees_append hcontent fun r calls => agrees_close hk hd name
    | some child =>
      let parent : Running H := { opened with text := r.text }
      have hcontent := agrees_nodes hk 1 (k + 1) (by omega) (parent.frame (d + 1) :: paused)
        (.fresh child) calls content
      exact agrees_append hcontent fun child calls => agrees_close_child hk parent name

theorem agrees_nodes (hk : hs.KeepsBoundary) (d k : Nat) (hd : d ≠ 0) (paused : List (Frame H))
    (r : Running H) (calls : List (Call H)) : (ns : List Node) →
    Agrees (Running.chain d k paused)
      ((Chain.receiver hs.traced).feed (r.chain d k paused calls) (Node.allEvents ns))
      (r.nodes hs d k ns calls)
  | [] => by
    rw [Node.allEvents, Running.nodes]
    rfl
  | n :: rest => by
    rw [Node.allEvents, Running.nodes]
    have hnode := agrees_node hk d k hd paused r calls n
    exact agrees_append hnode fun r calls => agrees_nodes hk d k hd paused r calls rest

end

end Content

/-! ## Documents -/

theorem agrees_document {hs : Handlers H N} (hk : hs.KeepsBoundary) (root : H)
    (name : QualifiedName) (attributes : Attributes) (content : List Node) :
    Agrees (fun root calls => ⟨[], some root, 0, calls⟩)
      ((Chain.receiver hs.traced).feed (.ofRoot root)
        (Node.documentEvents name attributes content))
      (descend hs root name attributes content) := by
  have hbegin : (Chain.receiver hs.traced).feed (.ofRoot root)
      (Node.documentEvents name attributes content) =
        (Chain.receiver hs.traced).feed ((Running.fresh root).chain 0 0 [] [])
          ([.startElement name attributes] ++
            ((Node.allEvents content ++ [.endElement name]) ++ [.endDocument])) := by
    rw [Node.documentEvents, Node.events]
    rfl
  rw [hbegin, descend, Running.node, bind_assoc]
  apply agrees_append (agrees_start attributes)
  rintro ⟨opened, child⟩ calls
  cases child with
  | none =>
    have hcontent := agrees_nodes hk 1 1 (by omega) [] opened calls content
    have helement := agrees_append hcontent fun r calls => agrees_close_root hk name
    exact agrees_append helement fun r calls => rfl
  | some child =>
    let parent : Running H := { opened with text := "" }
    have hcontent := agrees_nodes hk 1 1 (by omega) [parent.frame 1] (.fresh child) calls content
    have helement := agrees_append hcontent fun child calls => agrees_close_child hk parent name
    exact agrees_append helement fun r calls => rfl

/-- A chain of handlers that retire at their own elements does with a document what the recursive
program does: the same calls in the same order, and the same root at the end or the same failure. -/
theorem Chain.feed_document (hs : Handlers H N) (hk : hs.KeepsBoundary) (root : H)
    (name : QualifiedName) (attributes : Attributes) (content : List Node) :
    let events := Node.documentEvents name attributes content
    let fed := (Chain.receiver hs).feed (.ofRoot root) events
    let traced := (Chain.receiver hs.traced).feed (.ofRoot root) events
    SameButLog fed traced ∧
      match descend hs root name attributes content with
      | .ok root calls =>
        fed.1 = .ok () ∧ fed.2.completed = some root ∧ fed.2.stack = [] ∧ traced.2.log = calls
      | .error e calls => fed.1 = .error e ∧ fed.2.completed = none ∧ traced.2.log = calls := by
  intro events fed traced
  have hagrees : Agrees (fun root calls => ⟨[], some root, 0, calls⟩) traced
      (descend hs root name attributes content) := agrees_document hk root name attributes content
  have hsame : SameButLog fed traced := feed_traced (.ofRoot root) [] events
  obtain ⟨houtcome, log, hchain⟩ := id hsame
  have hcompleted : fed.2.completed = traced.2.completed := by
    rw [hchain]
    rfl
  have hstack : fed.2.stack = traced.2.stack := by
    rw [hchain]
    rfl
  refine ⟨hsame, ?_⟩
  cases hresult : descend hs root name attributes content with
  | ok root' calls =>
    rw [hresult] at hagrees
    have htraced : traced = (.ok (), ⟨[], some root', 0, calls⟩) := hagrees
    rw [houtcome, hcompleted, hstack, htraced]
    exact ⟨rfl, rfl, rfl, rfl⟩
  | error e calls =>
    rw [hresult] at hagrees
    obtain ⟨herror, hnone, hlog⟩ := hagrees
    exact ⟨houtcome.trans herror, hcompleted.trans hnone, hlog⟩

/-- A recorder that gives `b` to a child, on `<a>x<b>y</b></a>`. -/
theorem Chain.feed_document_recorder :
    Recorder.handlers.KeepsBoundary ∧
      ((Chain.receiver Recorder.handlers).feed (.ofRoot (.fresh "a" (.names ["b"]) none))
        (Node.documentEvents (.ofLocal "a") .empty
          [.text "x", .element (.ofLocal "b") .empty [.text "y"]])).2.completed =
        some ⟨"a", .names ["b"], none, ⟨"a", [], "x", [⟨"b", [], "y", []⟩]⟩⟩ := by
  have hk : Recorder.handlers.KeepsBoundary := fun _ _ _ => rfl
  refine ⟨hk, ?_⟩
  obtain ⟨-, -, hcompleted, -⟩ := Chain.feed_document Recorder.handlers hk
    (.fresh "a" (.names ["b"]) none) (.ofLocal "a") .empty
    [.text "x", .element (.ofLocal "b") .empty [.text "y"]]
  exact hcompleted

end ScopedXml.Scope
