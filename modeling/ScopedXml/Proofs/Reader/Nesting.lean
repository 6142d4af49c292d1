import ScopedXml.Proofs.Nodes
import ScopedXml.Proofs.Reader.Delivery

/-!
# Nesting

A reading trusts its lexer with nothing but the order of the pieces: tags may come in any number
and under any names. What it tells is nevertheless the beginning of a document, and all of one if
nothing went wrong (`DocumentReader.delivers_nested`).

What has been told up to some piece is a tree that is still being built (`told`): its open elements,
innermost first, each with the content that is complete. `Stride` lists what one piece can do to a
reading; the invariants `Told` and `Reading.Level` are checked against that list and nothing else.
-/

namespace ScopedXml

open Markup

variable {P C : Type}

/-! ## Trees in the making -/

/-- An element that is still open, with its content so far. -/
structure OpenElement where
  name : QualifiedName
  attributes : Attributes
  content : List Node

namespace OpenElement

/-- The element as it is if it closes now. -/
def closed (element : OpenElement) : Node :=
  .element element.name element.attributes element.content

def add (element : OpenElement) (node : Node) : OpenElement :=
  { element with content := element.content ++ [node] }

end OpenElement

theorem Node.allEvents_append (content more : List Node) :
    Node.allEvents (content ++ more) = Node.allEvents content ++ Node.allEvents more := by
  induction content with
  | nil => simp [Node.allEvents]
  | cons node content ih => rw [List.cons_append, allEvents, allEvents, ih, List.append_assoc]

theorem Node.allEvents_singleton (node : Node) : Node.allEvents [node] = node.events := by
  simp [Node.allEvents]

/-- The events of the open elements so far. -/
def told : List OpenElement → List Event
  | [] => []
  | inner :: outer =>
    told outer ++ .startElement inner.name inner.attributes :: Node.allEvents inner.content

theorem told_add (inner : OpenElement) (outer : List OpenElement) (node : Node) :
    told (inner.add node :: outer) = told (inner :: outer) ++ node.events := by
  simp [told, OpenElement.add, Node.allEvents_append, Node.allEvents_singleton]

theorem told_closed (inner : OpenElement) (outer : List OpenElement) :
    told (inner :: outer) ++ [.endElement inner.name] = told outer ++ inner.closed.events := by
  simp [told, OpenElement.closed, Node.events]

/-- What has been told of a document with these open elements: nothing, a part of its root element,
or all of it. -/
inductive Told : List QualifiedName → Bool → List Event → Prop
  | nothing : Told [] false []
  | part (inner : OpenElement) (outer : List OpenElement) :
    Told ((inner :: outer).map (·.name)) true (told (inner :: outer))
  | all (root : OpenElement) : Told [] true root.closed.events

namespace Told

variable {opened outer : List QualifiedName} {seen : Bool} {events : List Event}
  {name : QualifiedName}

theorem opens (h : Told opened seen events) (hroot : opened = [] → seen = false)
    (name : QualifiedName) (attributes : Attributes) :
    Told (name :: opened) true (events ++ [.startElement name attributes]) := by
  cases h with
  | nothing => exact part ⟨name, attributes, []⟩ []
  | part inner outer => exact part ⟨name, attributes, []⟩ (inner :: outer)
  | all root => exact absurd (hroot rfl) Bool.noConfusion

theorem speaks (h : Told opened seen events) (hopen : opened ≠ []) (s : String) :
    Told opened seen (events ++ [.characters s]) := by
  cases h with
  | nothing => exact absurd rfl hopen
  | all root => exact absurd rfl hopen
  | part inner outer =>
    have hadded := told_add inner outer (.text s)
    rw [Node.events] at hadded
    rw [← hadded]
    exact part (inner.add (.text s)) outer

theorem closes (h : Told (name :: outer) seen events) :
    Told outer seen (events ++ [.endElement name]) := by
  generalize hopened : name :: outer = opened at h
  cases h with
  | nothing => cases hopened
  | all root => cases hopened
  | part inner others =>
    obtain ⟨rfl, rfl⟩ := List.cons.inj hopened
    rw [told_closed]
    cases others with
    | nil => exact all inner
    | cons next others =>
      rw [← told_add]
      exact part (next.add inner.closed) others

/-- Whatever has been told can go on to a root element. -/
theorem exists_root (h : Told opened seen events) :
    ∃ root : OpenElement, events <+: root.closed.events := by
  cases h with
  | nothing => exact ⟨⟨⟨none, none, ""⟩, ⟨[]⟩, []⟩, List.nil_prefix⟩
  | all root => exact ⟨root, List.prefix_refl _⟩
  | part inner outer =>
    -- The open elements are closed one after the other, each a node of the one around it.
    induction outer generalizing inner with
    | nil =>
      refine ⟨inner, [.endElement inner.name], ?_⟩
      exact told_closed inner []
    | cons next outer ih =>
      obtain ⟨root, hroot⟩ := ih (next.add inner.closed)
      rw [told_add, ← told_closed] at hroot
      exact ⟨root, (List.prefix_append _ _).trans hroot⟩

end Told

/-! ## What one piece of markup does -/

theorem eventsOf_append (items more : List Item) :
    eventsOf (items ++ more) = eventsOf items ++ eventsOf more := List.filterMap_append

namespace Schema.Validator

theorem startElement_height (v : Validator) (schema : Schema) (name : QualifiedName)
    (attributes : Attributes) :
    (v.startElement schema name attributes).2.frames.length = v.frames.length + 1 := by
  obtain ⟨frames⟩ := v
  match frames with
  | [] =>
    unfold startElement
    cases schema.element? name.space name.localName <;> rfl
  | .skipped :: _ => rfl
  | .simple .. :: _ => rfl
  | .complex .. :: _ => rfl

theorem characters_height (v : Validator) (chunk : String) :
    (v.characters chunk).2.frames.length = v.frames.length := by
  unfold characters
  split
  · next h => simp [h]
  · next h =>
    split
    · simp [h]
    · split <;> simp [h]
  · rfl

theorem endElement_height (v : Validator) (schema : Schema) :
    (v.endElement schema).2.frames.length = v.frames.length - 1 := by
  unfold endElement
  split <;> next h => simp [h]

end Schema.Validator

namespace Reading

variable {schema : Schema} {origin : Origin} {r r' : Reading} {o : Outcome}

/-- The number of frames of the validator, if there is one. -/
def frameCount? (r : Reading) : Option Nat := r.validator.map (·.frames.length)

/-- How a reading can break off. -/
inductive Breaks (r : Reading) : Outcome → Prop
  | fails (e : ReadFailure) : Breaks r (.fail e)
  | fatal (position : Nat) (fault : DocumentFault) : Breaks r (r.fatal position fault)

/-- What one piece of markup can do to a reading. -/
inductive Stride (r : Reading) : Outcome → Prop
  | breaks {o : Outcome} : Breaks r o → Stride r o
  | rests : Stride r ⟨[], .continue r⟩
  | opens {r' : Reading} {items : List Item} {name : QualifiedName} {attributes : Attributes} :
    eventsOf items = [.startElement name attributes] →
    (r.openElements = [] → r.seenRoot = false) →
    r'.openElements = name :: r.openElements → r'.seenRoot = true →
    r'.scopes.levels.length = r.scopes.levels.length + 1 →
    r'.frameCount? = r.frameCount?.map (· + 1) →
    Stride r ⟨items, .continue r'⟩
  | closes {r' : Reading} {items : List Item} {name : QualifiedName} :
    eventsOf items = [.endElement name] →
    r.openElements = name :: r'.openElements → r'.seenRoot = r.seenRoot →
    r'.scopes.levels.length = r.scopes.levels.length - 1 →
    r'.frameCount? = r.frameCount?.map (· - 1) →
    Stride r ⟨items, .continue r'⟩
  | speaks {r' : Reading} {items : List Item} {s : String} :
    eventsOf items = [.characters s] → s ≠ "" → r.openElements ≠ [] →
    r'.openElements = r.openElements → r'.seenRoot = r.seenRoot →
    r'.scopes.levels.length = r.scopes.levels.length →
    r'.frameCount? = r.frameCount? →
    Stride r ⟨items, .continue r'⟩

theorem enter_height {scopes entered : Namespace.Scopes}
    {declarations : List Namespace.Declaration} (h : scopes.enter declarations = .ok entered) :
    entered.levels.length = scopes.levels.length + 1 := by
  unfold Namespace.Scopes.enter at h
  cases hcheck : declarations.forM Namespace.Declaration.check with
  | error fault =>
    rw [hcheck] at h
    cases h
  | ok _ =>
    rw [hcheck] at h
    cases h
    rfl

theorem leave_height {scopes : Namespace.Scopes} :
    scopes.leave.levels.length = scopes.levels.length - 1 := List.length_drop

theorem eventsOf_reports (r : Reading) (position : Nat) (findings : List Schema.Finding)
    (event : Event) : eventsOf (r.reports position findings ++ [.event event]) = [event] := by
  simp [eventsOf, reports, Item.event?]

theorem openElement_stride (position : Nat) (name : String) (attributes : List WrittenAttribute) :
    Stride r (openElement schema r position name attributes) := by
  unfold openElement
  split
  · exact .breaks (.fatal position _)
  · next hfirst =>
    have hroot : r.openElements = [] → r.seenRoot = false := by
      intro hnone
      simpa [hnone] using hfirst
    split
    · exact .breaks (.fatal position _)
    · next scopes henter =>
      have hscopes : scopes.levels.length = r.scopes.levels.length + 1 := enter_height henter
      split
      · exact .breaks (.fatal position _)
      · next name attributes hresolve =>
        dsimp only
        split
        · next hnone =>
          exact .opens rfl hroot rfl rfl hscopes (by simp [frameCount?, hnone])
        · next v hsome =>
          have hheight := v.startElement_height schema name attributes
          generalize v.startElement schema name attributes = found at hheight ⊢
          refine .opens (eventsOf_reports _ _ _ _) hroot rfl rfl hscopes ?_
          simp [frameCount?, hsome, hheight]

theorem closeElement_stride (position : Nat) (written : String) :
    Stride r (closeElement schema r position written) := by
  unfold closeElement
  split
  · exact .breaks (.fatal position _)
  · next name outer hopen =>
    split
    · next hnone =>
      exact .closes rfl hopen rfl leave_height (by simp [frameCount?, hnone])
    · next v hsome =>
      have hheight := v.endElement_height schema
      generalize v.endElement schema = found at hheight ⊢
      refine .closes (eventsOf_reports _ _ _ _) hopen rfl leave_height ?_
      simp [frameCount?, hsome, hheight]

theorem characters_stride (position : Nat) (s : String) : Stride r (r.characters position s) := by
  unfold characters
  split
  · exact .rests
  · next hsome =>
    split
    · split
      · exact .rests
      · exact .breaks (.fatal position _)
    · next hopen =>
      have hs : s ≠ "" := by
        rintro rfl
        exact hsome rfl
      have hopened : r.openElements ≠ [] := by simpa using hopen
      split
      · exact .speaks rfl hs hopened rfl rfl rfl rfl
      · next v hv =>
        have hheight := v.characters_height s
        generalize v.characters s = found at hheight ⊢
        refine .speaks (eventsOf_reports _ _ _ _) hs hopened rfl rfl rfl ?_
        simp [frameCount?, hv, hheight]

theorem orFail_stride {α : Type} {f : α → Outcome} (x : Except ReadFailure α)
    (hf : ∀ a, Stride r (f a)) : Stride r (orFail x f) := by
  cases x with
  | error e => exact .breaks (.fails e)
  | ok a => exact hf a

theorem step_stride [Text.Decoders] (lexeme : Lexeme) : Stride r (r.step schema origin lexeme) := by
  unfold step
  split
  · exact orFail_stride _ fun _ => openElement_stride _ _ _
  · exact orFail_stride _ fun _ => closeElement_stride _ _
  · exact orFail_stride _ (characters_stride _)
  · exact orFail_stride _ (characters_stride _)
  · exact orFail_stride _ fun _ => .rests
  · exact orFail_stride _ fun _ => .rests
  · exact .rests
  · exact .rests

/-- Only what breaks a reading off stops it. -/
theorem Stride.breaks_of_stop {failure : Option ReadFailure} (h : Stride r o)
    (hstop : o.onward = .stop failure) : Breaks r o := by
  cases h with
  | breaks hbreaks => exact hbreaks
  | rests => cases hstop
  | opens => cases hstop
  | closes => cases hstop
  | speaks => cases hstop

/-! ## Whole documents -/

/-- How reading goes on once `events` have been told of the root element: along some document, and
to its end unless it fails or reports a fatal diagnostic. -/
structure Completes (events : List Event) (t : Transcript) : Prop where
  spoken : ∀ s, .characters s ∈ eventsOf t.items → s ≠ ""
  document : ∃ root : OpenElement,
    events ++ eventsOf t.items <+: root.closed.events ++ [.endDocument] ∧
      (t.failure = none → (∀ d, .report d ∈ t.items → d.severity ≠ .fatal) →
        events ++ eventsOf t.items = root.closed.events ++ [.endDocument])

variable {events : List Event}

theorem Breaks.eventsOf_eq_nil (h : Breaks r o) : eventsOf o.items = [] := by
  cases h <;> rfl

theorem Breaks.completes (h : Breaks r o) (htold : Told r.openElements r.seenRoot events) :
    ∃ failure, o.onward = .stop failure ∧ Completes events ⟨o.items, failure⟩ := by
  obtain ⟨root, hroot⟩ := htold.exists_root
  have hprefix : events ++ eventsOf o.items <+: root.closed.events ++ [.endDocument] := by
    rw [h.eventsOf_eq_nil, List.append_nil]
    exact hroot.trans (List.prefix_append _ _)
  have hspoken : ∀ s, .characters s ∈ eventsOf o.items → s ≠ "" := by
    intro s hs
    rw [h.eventsOf_eq_nil] at hs
    cases hs
  cases h with
  | fails e =>
    have hfailed : some e ≠ none := Option.some_ne_none e
    exact ⟨some e, rfl, hspoken, root, hprefix, fun hnone => absurd hnone hfailed⟩
  | fatal position fault =>
    refine ⟨none, rfl, hspoken, root, hprefix, fun _ hmild => ?_⟩
    exact absurd rfl (hmild _ (List.mem_cons_self ..))

theorem lexFault_breaks [Text.Decoders] (position : Nat) (fault : LexFault) :
    Breaks r (r.lexFault position fault) := by
  unfold lexFault
  cases documentFault position fault with
  | error e => exact .fails e
  | ok fault => exact .fatal position fault

theorem finish_completes [Text.Decoders] (htold : Told r.openElements r.seenRoot events)
    (position : Nat) (fault : Option LexFault) :
    ∃ failure, (r.finish position fault).onward = .stop failure ∧
      Completes events ⟨(r.finish position fault).items, failure⟩ := by
  unfold finish
  split
  · exact (lexFault_breaks position _).completes htold
  · split
    · exact (Breaks.fatal position _).completes htold
    · next hopen =>
      split
      · next hseen =>
        rw [hopen, hseen] at htold
        generalize hopened : ([] : List QualifiedName) = opened at htold
        cases htold with
        | part inner outer => cases hopened
        | all root =>
          refine ⟨none, rfl, ⟨fun s hs => ?_, root, List.prefix_refl _, fun _ _ => rfl⟩⟩
          simp [eventsOf, Item.event?] at hs
      · exact (Breaks.fatal position _).completes htold

theorem Completes.before {items : List Item} {t : Transcript}
    (h : Completes (events ++ eventsOf items) t)
    (hspoken : ∀ s, .characters s ∈ eventsOf items → s ≠ "") :
    Completes events { t with items := items ++ t.items } := by
  obtain ⟨hrest, root, hprefix, hall⟩ := h
  rw [List.append_assoc, ← eventsOf_append] at hprefix hall
  refine ⟨fun s hs => ?_, root, hprefix, fun hnone hmild => ?_⟩
  · rw [eventsOf_append] at hs
    rcases List.mem_append.mp hs with hs | hs
    · exact hspoken s hs
    · exact hrest s hs
  · apply hall hnone
    intro d hd
    exact hmild d (List.mem_append_right items hd)

/-- What has been told stays a part of one document over a piece of markup that reading goes on
behind. -/
theorem Stride.told (h : Stride r o) (htold : Told r.openElements r.seenRoot events)
    (honward : o.onward = .continue r') :
    Told r'.openElements r'.seenRoot (events ++ eventsOf o.items) ∧
      ∀ s, .characters s ∈ eventsOf o.items → s ≠ "" := by
  cases h with
  | breaks hbreaks =>
    obtain ⟨failure, hstop, -⟩ := hbreaks.completes htold
    rw [hstop] at honward
    cases honward
  | rests =>
    cases honward
    exact ⟨by simpa [eventsOf] using htold, fun s hs => by cases hs⟩
  | opens hitems hroot hopened hseen hscopes hframes =>
    cases honward
    rw [hitems, hopened, hseen]
    exact ⟨htold.opens hroot _ _, by simp⟩
  | closes hitems hopened hseen hscopes hframes =>
    cases honward
    rw [hopened] at htold
    rw [hitems, hseen]
    exact ⟨htold.closes, by simp⟩
  | speaks hitems hs hopen hopened hseen hscopes hframes =>
    cases honward
    rw [hitems, hopened, hseen]
    refine ⟨htold.speaks hopen _, fun s hmem => ?_⟩
    obtain rfl : s = _ := by simpa using hmem
    exact hs

theorem Stride.completes (h : Stride r o) (htold : Told r.openElements r.seenRoot events)
    {failure : Option ReadFailure} (hstop : o.onward = .stop failure) :
    Completes events ⟨o.items, failure⟩ := by
  obtain ⟨found, hfound, hcompletes⟩ := (h.breaks_of_stop hstop).completes htold
  obtain rfl : found = failure := by simpa [hfound] using hstop
  exact hcompletes

theorem run_completes [Text.Decoders] (htold : Told r.openElements r.seenRoot events)
    (position : Nat) (fault : Option LexFault) (lexemes : List Lexeme) :
    Completes events (run schema origin position fault r lexemes) := by
  induction lexemes generalizing r events with
  | nil =>
    obtain ⟨failure, hstop, hcompletes⟩ := finish_completes htold position fault
    rw [run, hstop]
    exact hcompletes
  | cons lexeme lexemes ih =>
    have hstride : Stride r (r.step schema origin lexeme) := step_stride lexeme
    rw [run]
    dsimp only
    split
    · next failure hstop => exact hstride.completes htold hstop
    · next r' honward =>
      obtain ⟨htold', hspoken⟩ := hstride.told htold honward
      exact (ih htold').before hspoken

/-! ## Heights -/

/-- The states between the pieces of markup of some document. -/
inductive Reached [Text.Decoders] (schema : Schema) (origin : Origin) (validating : Bool) :
    Reading → Prop
  | start : Reached schema origin validating (Reading.start validating)
  | step {r r' : Reading} (lexeme : Lexeme) : Reached schema origin validating r →
    (r.step schema origin lexeme).onward = .continue r' → Reached schema origin validating r'

/-- Open elements, namespace scopes and the frames of the validator go up and down together. -/
structure Level (validating : Bool) (r : Reading) : Prop where
  scopes : r.scopes.levels.length = r.openElements.length
  frames : r.frameCount? = if validating then some r.openElements.length else none

variable {validating : Bool}

theorem Level.start : Level validating (Reading.start validating) := by
  cases validating <;> exact ⟨rfl, rfl⟩

theorem Stride.level (h : Stride r o) (hlevel : Level validating r)
    (honward : o.onward = .continue r') : Level validating r' := by
  obtain ⟨hscopes, hframes⟩ := hlevel
  cases h with
  | breaks hbreaks => cases hbreaks <;> cases honward
  | rests =>
    cases honward
    exact ⟨hscopes, hframes⟩
  | opens hitems hroot hopened hseen hscopes' hframes' =>
    cases honward
    refine ⟨?_, ?_⟩
    · rw [hscopes', hopened, List.length_cons, hscopes]
    · rw [hframes', hopened, List.length_cons, hframes]
      cases validating <;> rfl
  | closes hitems hopened hseen hscopes' hframes' =>
    cases honward
    rw [hopened, List.length_cons] at hscopes hframes
    refine ⟨?_, ?_⟩
    · rw [hscopes', hscopes, Nat.add_sub_cancel]
    · rw [hframes', hframes]
      cases validating <;> rfl
  | speaks hitems hs hopen hopened hseen hscopes' hframes' =>
    cases honward
    refine ⟨?_, ?_⟩
    · rw [hscopes', hopened, hscopes]
    · rw [hframes', hopened, hframes]

theorem Reached.level [Text.Decoders] (h : Reached schema origin validating r) :
    Level validating r := by
  induction h with
  | start => exact .start
  | step lexeme _ honward ih => exact (step_stride lexeme).level ih honward

end Reading

/-! ## Readers -/

/-- Events as they have to be if this is how a parse went: the beginning of a document with no empty
texts in it, and all of the document if nothing went wrong. -/
def TellsDocument (answer : Except ReadFailure Unit) (events : List Event) : Prop :=
  (∀ s, .characters s ∈ events → s ≠ "") ∧
    ∃ name attributes content,
      events <+: Node.documentEvents name attributes content ∧
        (answer = .ok () → events = Node.documentEvents name attributes content)

theorem TellsDocument.nothing (e : ReadFailure) : TellsDocument (.error e) [] := by
  refine ⟨by simp, ⟨none, none, ""⟩, ⟨[]⟩, [], List.nil_prefix, ?_⟩
  intro hok
  cases hok

theorem transcriptOf_tells [Text.Decoders] (schema : Option Schema) (origin : Origin)
    (lexing : Lexing) (policy : Policy P) (receiver : Receiver C) (p : P) (c : C) :
    TellsDocument ((transcriptOf schema origin lexing).deliver policy receiver p c).1
      (eventsOf (handed policy receiver p c (transcriptOf schema origin lexing).items)) := by
  have hcompletes : Reading.Completes [] ((Reading.start schema.isSome).run (schema.getD .empty)
      origin lexing.position lexing.fault lexing.lexemes) :=
    Reading.run_completes .nothing _ _ _
  obtain ⟨hspoken, root, hprefix, hall⟩ := hcompletes
  rw [List.nil_append] at hprefix hall
  have hdelivered : eventsOf (handed policy receiver p c (transcriptOf schema origin lexing).items)
      <+: eventsOf (transcriptOf schema origin lexing).items :=
    (handed_isPrefix _).filterMap _
  have hstart : eventsOf (transcriptOf schema origin lexing).items =
      .startDocument :: eventsOf ((Reading.start schema.isSome).run (schema.getD .empty) origin
        lexing.position lexing.fault lexing.lexemes).items := rfl
  rw [hstart] at hdelivered
  refine ⟨fun s hs => ?spoken, root.name, root.attributes, root.content, ?nested, fun hok => ?full⟩
  case spoken =>
    rcases List.mem_cons.mp (hdelivered.subset hs) with hs | hs
    · cases hs
    · exact hspoken s hs
  case nested => exact hdelivered.trans ((List.prefix_cons_inj _).mpr hprefix)
  case full =>
    obtain ⟨hhanded, hfailure, hmild⟩ := Transcript.complete_of_ok hok
    have hrest := hall hfailure fun d hd => hmild d (List.mem_cons_of_mem _ hd)
    rw [hhanded, hstart, hrest]
    rfl

theorem transcriptOf_tells_logged [Text.Decoders] (schema : Option Schema) (origin : Origin)
    (lexing : Lexing) (policy : Policy P) (receiver : Receiver C) (p : P) (c : C) :
    let run := (transcriptOf schema origin lexing).deliver policy.logged receiver.logged
      (p, []) (c, [])
    TellsDocument run.1 run.2.2.2 := by
  rw [Transcript.deliver_logged]
  exact transcriptOf_tells schema origin lexing policy receiver p c

namespace DocumentReader

variable [Text.Decoders]

theorem handed_tells (r : DocumentReader) (input : Input) (policy : Policy P)
    (receiver : Receiver C) (p : P) (c : C) :
    TellsDocument (r.parse input policy receiver p c).1
      (eventsOf (r.handed input policy receiver p c)) := by
  cases htranscript : r.transcript input with
  | error e =>
    rw [parse_of_error htranscript, handed_of_error htranscript]
    exact .nothing e
  | ok t =>
    rw [parse_of_transcript htranscript, handed_of_transcript htranscript]
    obtain ⟨origin, lexing, rfl⟩ := exists_transcriptOf htranscript
    exact transcriptOf_tells r.schema origin lexing policy receiver p c

theorem parse_tells (r : DocumentReader) (input : Input) (policy : Policy P)
    (receiver : Receiver C) (p : P) (c : C) :
    let run := r.parse input policy.logged receiver.logged (p, []) (c, [])
    TellsDocument run.1 run.2.2.2 := by
  cases htranscript : r.transcript input with
  | error e =>
    rw [parse_of_error htranscript]
    exact .nothing e
  | ok t =>
    rw [parse_of_transcript htranscript]
    obtain ⟨origin, lexing, rfl⟩ := exists_transcriptOf htranscript
    exact transcriptOf_tells_logged r.schema origin lexing policy receiver p c

/-- **Nesting.** Whatever the lexer finds, whatever the schema, and whoever listens: the receiver
gets the beginning of a document, and all of it if nothing goes wrong. Between two pieces of markup
the open elements, the namespace scopes and the frames of the validator are equally many. -/
theorem delivers_nested (r : DocumentReader) (policy : Policy P)
    (receiver : Receiver C) (p : P) (c : C) :
    (∀ origin lexing,
      let run := (transcriptOf r.schema origin lexing).deliver policy.logged receiver.logged
        (p, []) (c, [])
      TellsDocument run.1 run.2.2.2) ∧
    (∀ input,
      let run := r.parse input policy.logged receiver.logged (p, []) (c, [])
      TellsDocument run.1 run.2.2.2) ∧
    ∀ origin reading,
      Reading.Reached (r.schema.getD .empty) origin r.isValidating reading →
        reading.Level r.isValidating := by
  refine ⟨fun origin lexing => ?_, fun input => ?_, fun origin reading hreached => ?_⟩
  · exact transcriptOf_tells_logged r.schema origin lexing policy receiver p c
  · exact r.parse_tells input policy receiver p c
  · exact hreached.level

end DocumentReader

end ScopedXml
