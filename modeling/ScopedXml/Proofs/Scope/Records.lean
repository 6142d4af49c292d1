import Mathlib.Data.List.Forall2
import ScopedXml.Proofs.Nodes
import ScopedXml.Scope.Chain
import ScopedXml.Scope.Recording

/-!
# Records mirror documents

A recorder that never refuses an element leaves a tree of records with the shape of its document.

* `Delegation.nearest`: the elements that are given to children, not looking into these.
* `Delegation.kept`: the text that is left of some content when it ends.
* `Mirrors`: a record says of an element what it should.
* `Delegation.feed_nodes`: what content does to the recorder that it stands in.
* `Recorder.records_document`: a whole document.
-/

namespace ScopedXml.Scope

/-! ## What a record should say -/

namespace Delegation

mutual

def nearestAt (d : Delegation) : Node → List Node
  | .text _ => []
  | .element name attributes content =>
    if d.wants name.localName then [.element name attributes content] else nearest d content

/-- The elements in some content that are given to children and do not lie within another such
element, in document order. -/
def nearest (d : Delegation) : List Node → List Node
  | [] => []
  | node :: rest => nearestAt d node ++ nearest d rest

end

mutual

def gatherAt (d : Delegation) (text : String) : Node → String
  | .text s => text ++ s
  | .element name _ content => if d.wants name.localName then text else gather d "" content

/-- The text that has gathered behind some content, where `text` stood before it. An element that is
given to a child leaves it alone; any other element starts it anew. -/
def gather (d : Delegation) (text : String) : List Node → String
  | [] => text
  | node :: rest => gather d (gatherAt d text node) rest

end

/-- The text that is left of some content. -/
def kept (d : Delegation) (content : List Node) : String := d.gather "" content

theorem gather_all (text : String) (content : List Node) :
    all.gather text content = text ++ Node.directText content := by
  induction content generalizing text with
  | nil => rw [gather, Node.directText, String.append_empty]
  | cons node rest ih =>
    rw [gather, ih]
    cases node with
    | text s => rw [gatherAt, Node.directText, String.append_assoc]
    | element name attributes content => rfl

/-- Where every element is given to a child, no text is lost. -/
theorem kept_all : all.kept = Node.directText := by
  funext content
  rw [kept, gather_all, String.empty_append]

end Delegation

/-- The record says of the element what it should: its local name, its attributes, the text of its
content, and in its children the same of the nearest elements that are given to children. -/
inductive Mirrors (d : Delegation) (text : List Node → String) : Node → ElementRecord → Prop
  | element {name : QualifiedName} {attributes : Attributes} {content : List Node}
    {children : List ElementRecord} :
    List.Forall₂ (Mirrors d text) (d.nearest content) children →
    Mirrors d text (.element name attributes content)
      ⟨name.localName, attributes.writtenPairs, text content, children⟩

/-! ## What the log should say -/

namespace ElementRecord

mutual

/-- The notes on a scope and all scopes within it, under a name for the scope itself. -/
def scope (label : String) : ElementRecord → List String
  | ⟨_, _, _, children⟩ => ("enter " ++ label) :: (scopes children ++ ["exit " ++ label])

def scopes : List ElementRecord → List String
  | [] => []
  | ⟨name, attributes, text, children⟩ :: rest =>
    scope name ⟨name, attributes, text, children⟩ ++ scopes rest

end

theorem scopes_append (rs more : List ElementRecord) :
    scopes (rs ++ more) = scopes rs ++ scopes more := by
  induction rs with
  | nil => rfl
  | cons r rs ih =>
    obtain ⟨name, attributes, text, children⟩ := r
    rw [List.cons_append, scopes, scopes, ih, List.append_assoc]

mutual

theorem length_scope (label : String) :
    ∀ r : ElementRecord, (r.scope label).length = 2 * r.count
  | ⟨_, _, _, children⟩ => by
    have hchildren := length_scopes children
    rw [scope, count, List.length_cons, List.length_append, List.length_singleton]
    omega

theorem length_scopes : ∀ rs : List ElementRecord, (scopes rs).length = 2 * countAll rs
  | [] => rfl
  | ⟨name, attributes, text, children⟩ :: rest => by
    have hfirst := length_scope name ⟨name, attributes, text, children⟩
    have hrest := length_scopes rest
    rw [scopes, countAll, List.length_append]
    omega

end

end ElementRecord

/-- Every scope that is entered is left, and all that is entered within it is left before. -/
inductive Balanced : List String → Prop
  | nil : Balanced []
  | scope {inner rest : List String} (label : String) : Balanced inner → Balanced rest →
    Balanced (("enter " ++ label) :: (inner ++ ("exit " ++ label) :: rest))

theorem Balanced.append {notes more : List String} (h : Balanced notes) (hmore : Balanced more) :
    Balanced (notes ++ more) := by
  induction h with
  | nil => exact hmore
  | scope label hinner _ _ ih =>
    rw [List.cons_append, List.append_assoc, List.cons_append]
    exact .scope label hinner ih

mutual

theorem balanced_scope (label : String) : ∀ r : ElementRecord, Balanced (r.scope label)
  | ⟨_, _, _, children⟩ => .scope label (balanced_scopes children) .nil

theorem balanced_scopes : ∀ rs : List ElementRecord, Balanced (ElementRecord.scopes rs)
  | [] => .nil
  | ⟨name, attributes, text, children⟩ :: rest =>
    (balanced_scope name ⟨name, attributes, text, children⟩).append (balanced_scopes rest)

end

/-! ## Single events -/

/-- The record with more children. -/
def ElementRecord.with (r : ElementRecord) (more : List ElementRecord) : ElementRecord :=
  { r with children := r.children ++ more }

theorem ElementRecord.with_nil (r : ElementRecord) : r.with [] = r := by
  obtain ⟨name, attributes, text, children⟩ := r
  rw [ElementRecord.with, List.append_nil]

theorem ElementRecord.with_append (r : ElementRecord) (more later : List ElementRecord) :
    r.with (more ++ later) = (r.with more).with later := by
  simp only [ElementRecord.with, List.append_assoc]

namespace Recorder

/-- A recorder that refuses nothing, at work. -/
def frame (label : String) (d : Delegation) (record : ElementRecord) (text : String)
    (attributes : Option Attributes) (depth : Nat) : Frame Recorder :=
  ⟨⟨label, d, none, record⟩, text, attributes, depth⟩

/-- The chain in which such a recorder is active. -/
def chain (active : Frame Recorder) (paused : List (Frame Recorder)) (documentDepth : Nat)
    (log : List String) : Chain Recorder String :=
  ⟨active :: paused, none, documentDepth, log⟩

section Events

variable {label : String} {d : Delegation} {record : ElementRecord} {text : String}
  {attributes : Option Attributes} {depth k : Nat} {paused : List (Frame Recorder)}
  {log : List String} {name : QualifiedName}

theorem startElement_root (as : Attributes) :
    (Chain.ofRoot (fresh label d none)).startElement handlers name as =
      (.ok (), chain (frame label d ⟨name.localName, as.writtenPairs, "", []⟩ "" (some as) 1) [] 1
        ["enter " ++ label]) := rfl

theorem startElement_kept (hdepth : 0 < depth) (hwants : d.wants name.localName = false)
    (as : Attributes) :
    (chain (frame label d record text attributes depth) paused k log).startElement handlers
        name as =
      (.ok (), chain (frame label d record "" (some as) (depth + 1)) paused (k + 1) log) := by
  have hinside : (depth + 1 == 1) = false := by
    rw [beq_eq_false_iff_ne]
    omega
  simp [chain, frame, Chain.startElement, handlers, onStart, Frame.view, Position.isBoundary,
    hinside, hwants, Reply.alone, Reply.done, Frame.after, Chain.note]

theorem startElement_given (hdepth : 0 < depth) (hwants : d.wants name.localName = true)
    (as : Attributes) :
    (chain (frame label d record text attributes depth) paused k log).startElement handlers
        name as =
      (.ok (), chain (frame name.localName d ⟨name.localName, as.writtenPairs, "", []⟩ "" none 1)
        (frame label d record text (some as) (depth + 1) :: paused) (k + 1)
        (log ++ ["enter " ++ name.localName])) := by
  have hinside : (depth + 1 == 1) = false := by
    rw [beq_eq_false_iff_ne]
    omega
  simp [chain, frame, Chain.startElement, handlers, onStart, Frame.view, Position.isBoundary,
    hinside, hwants, Reply.delegating, Reply.done, Frame.after, Chain.note, child, Frame.enter]

theorem endElement_kept (hdepth : 0 < depth) :
    (chain (frame label d record text attributes (depth + 1)) paused (k + 1) log).endElement
        handlers name =
      (.ok (), chain (frame label d record text attributes depth) paused k log) := by
  have hinside : (depth + 1 == 1) = false := by
    rw [beq_eq_false_iff_ne]
    omega
  simp [chain, frame, Chain.endElement, handlers, onEnd, Frame.view, Position.isBoundary, hinside,
    Reply.done, Frame.after, Chain.note]

theorem endElement_given {child : ElementRecord} {gathered : String}
    {last : Option Attributes} :
    (chain (frame name.localName d child gathered last 1)
        (frame label d record text attributes (depth + 1) :: paused) (k + 1) log).endElement
        handlers name =
      (.ok (), chain (frame label d (record.with [{ child with text := gathered }]) text attributes
        depth) paused k (log ++ ["exit " ++ name.localName])) := by
  simp [chain, frame, Chain.endElement, handlers, onEnd, Frame.view, Position.isBoundary,
    Reply.taking, Reply.done, Frame.after, Chain.note, Chain.retire, onChild, ElementRecord.with]

theorem endElement_root :
    (chain (frame label d record text attributes 1) [] k log).endElement handlers name =
      (.ok (), ⟨[], some ⟨label, d, none, { record with text := text }⟩, k - 1,
        log ++ ["exit " ++ label]⟩) := by
  simp [chain, frame, Chain.endElement, handlers, onEnd, Frame.view, Position.isBoundary,
    Reply.taking, Frame.after, Chain.note, Chain.retire]

end Events

/-! ## Content -/

/-- A recorder that these events reach within its element goes on with records of these elements as
further children, notes them, and has gathered this text. -/
def Records (d : Delegation) (elements : List Node) (gathered : String → String)
    (events : List Event) : Prop :=
  ∀ (label : String) (record : ElementRecord) (text : String) (attributes : Option Attributes)
    (depth : Nat) (paused : List (Frame Recorder)) (k : Nat) (log : List String), 0 < depth →
    ∃ (last : Option Attributes) (children : List ElementRecord),
      List.Forall₂ (Mirrors d d.kept) elements children ∧
      (Chain.receiver handlers).feed
          (chain (frame label d record text attributes depth) paused k log) events =
        (.ok (), chain (frame label d (record.with children) (gathered text) last depth) paused k
          (log ++ ElementRecord.scopes children))

variable {d : Delegation}

theorem Records.append {elements more : List Node} {gathered gathered' : String → String}
    {events events' : List Event} (h : Records d elements gathered events)
    (hmore : Records d more gathered' events') :
    Records d (elements ++ more) (gathered' ∘ gathered) (events ++ events') := by
  intro label record text attributes depth paused k log hdepth
  obtain ⟨last, children, hchildren, hfed⟩ :=
    h label record text attributes depth paused k log hdepth
  obtain ⟨last', children', hchildren', hfed'⟩ :=
    hmore label (record.with children) (gathered text) last depth paused k
      (log ++ ElementRecord.scopes children) hdepth
  refine ⟨last', children ++ children', List.rel_append hchildren hchildren', ?_⟩
  rw [Receiver.feed_append_of_ok hfed, hfed', ← ElementRecord.with_append,
    ElementRecord.scopes_append, List.append_assoc]
  rfl

theorem records_nothing : Records d [] id [] := by
  intro label record text attributes depth paused k log _
  refine ⟨attributes, [], .nil, ?_⟩
  rw [ElementRecord.with_nil, ElementRecord.scopes, List.append_nil]
  rfl

theorem records_text (s : String) : Records d [] (· ++ s) [.characters s] := by
  intro label record text attributes depth paused k log _
  refine ⟨attributes, [], .nil, ?_⟩
  rw [Receiver.feed_singleton, ElementRecord.with_nil, ElementRecord.scopes, List.append_nil]
  simp [Chain.receiver, Chain.receive, Chain.characters, chain, frame, handlers, Reply.done,
    Frame.after, Chain.note]

/-- An element that the recorder keeps to itself starts its text anew. -/
theorem Records.inside {name : QualifiedName} (hwants : d.wants name.localName = false)
    (as : Attributes) {elements : List Node} {gathered : String → String} {events : List Event}
    (h : Records d elements gathered events) :
    Records d elements (fun _ => gathered "")
      (.startElement name as :: (events ++ [.endElement name])) := by
  intro label record text attributes depth paused k log hdepth
  obtain ⟨last, children, hchildren, hfed⟩ :=
    h label record "" (some as) (depth + 1) paused (k + 1) log (Nat.succ_pos depth)
  refine ⟨last, children, hchildren, ?_⟩
  rw [Receiver.feed_cons_of_ok (startElement_kept hdepth hwants as),
    Receiver.feed_append_of_ok hfed, Receiver.feed_singleton]
  exact endElement_kept hdepth

/-- An element that is given to a child becomes a record of its own. -/
theorem Records.given {name : QualifiedName} (hwants : d.wants name.localName = true)
    (as : Attributes) {content : List Node} {events : List Event}
    (h : Records d (d.nearest content) (d.gather · content) events) :
    Records d [.element name as content] id
      (.startElement name as :: (events ++ [.endElement name])) := by
  intro label record text attributes depth paused k log hdepth
  obtain ⟨last, children, hchildren, hfed⟩ :=
    h name.localName ⟨name.localName, as.writtenPairs, "", []⟩ "" none 1
      (frame label d record text (some as) (depth + 1) :: paused) (k + 1)
      (log ++ ["enter " ++ name.localName]) Nat.one_pos
  refine ⟨some as, [⟨name.localName, as.writtenPairs, d.kept content, children⟩],
    .cons (.element hchildren) .nil, ?_⟩
  rw [Receiver.feed_cons_of_ok (startElement_given hdepth hwants as),
    Receiver.feed_append_of_ok hfed, Receiver.feed_singleton]
  refine endElement_given.trans ?_
  simp [ElementRecord.scopes, ElementRecord.scope, ElementRecord.with, Delegation.kept]

mutual

theorem records_node (d : Delegation) :
    ∀ node : Node, Records d (d.nearestAt node) (d.gatherAt · node) node.events
  | .text s => records_text s
  | .element name as content => by
    have hcontent := records_nodes d content
    unfold Delegation.nearestAt Delegation.gatherAt Node.events
    cases hwants : d.wants name.localName with
    | true => exact .given hwants as hcontent
    | false => exact .inside hwants as hcontent

theorem records_nodes (d : Delegation) :
    ∀ content : List Node, Records d (d.nearest content) (d.gather · content)
      (Node.allEvents content)
  | [] => records_nothing
  | node :: rest => (records_node d node).append (records_nodes d rest)

end

/-! ## Documents -/

/-- A recorder that refuses nothing comes to the end of every document. Its record mirrors the root
element, and the log holds the scopes of the record, each entered and left. Where every element is
given to a child, all text is on record. -/
theorem records_document (label : String) (d : Delegation) (name : QualifiedName)
    (attributes : Attributes) (content : List Node) :
    let fed := (Chain.receiver handlers).feed (.ofRoot (.fresh label d none))
      (Node.documentEvents name attributes content)
    fed.1 = .ok () ∧ fed.2.stack = [] ∧ ∃ record : ElementRecord,
      fed.2.completed = some ⟨label, d, none, record⟩ ∧
      Mirrors d d.kept (.element name attributes content) record ∧
      (d = .all → Mirrors d Node.directText (.element name attributes content) record) ∧
      fed.2.log = record.scope label ∧ Balanced fed.2.log ∧
      fed.2.log.length = 2 * record.count := by
  intro fed
  obtain ⟨last, children, hchildren, hfed⟩ :=
    records_nodes d content label ⟨name.localName, attributes.writtenPairs, "", []⟩ ""
      (some attributes) 1 [] 1 ["enter " ++ label] Nat.one_pos
  let record : ElementRecord := ⟨name.localName, attributes.writtenPairs, d.kept content, children⟩
  have hmirrors : Mirrors d d.kept (.element name attributes content) record := .element hchildren
  have helement : (Chain.receiver handlers).feed (.ofRoot (.fresh label d none))
      (Node.element name attributes content).events =
        (.ok (), ⟨[], some ⟨label, d, none, record⟩, 0, record.scope label⟩) := by
    rw [Node.events, Receiver.feed_cons_of_ok (startElement_root attributes),
      Receiver.feed_append_of_ok hfed, Receiver.feed_singleton]
    exact endElement_root
  have hdocument : fed = (.ok (), ⟨[], some ⟨label, d, none, record⟩, 0, record.scope label⟩) := by
    rw [show fed = _ from Receiver.feed_cons_of_ok rfl _, Receiver.feed_append_of_ok helement]
    rfl
  rw [hdocument]
  refine ⟨rfl, rfl, record, rfl, hmirrors, ?_, rfl, balanced_scope label record,
    record.length_scope label⟩
  rintro rfl
  rw [← Delegation.kept_all]
  exact hmirrors

end Recorder

end ScopedXml.Scope
