import ScopedXml.Proofs.Outcome
import ScopedXml.Reader.Parse

/-!
# Driving and telling

A reader reports and tells while it reads. What it reports and tells, in which order, and in which
failure it ends of itself, is its transcript: to drive a document is to hand over the items of the
transcript one after the other (`Drive.document_eq`, `DocumentReader.drive_eq`).

Each part of a driver is compared with the outcome that the reading has for the same piece of
markup, whatever the driver goes on with (`Outcome.tell`).
-/

namespace ScopedXml

open Markup

variable {S α β : Type}

/-! ## Handing over in a common state -/

/-- Hand one item to its listener. -/
def Item.tell (policy : Policy S) (receiver : Receiver S) : Item → Drive S Unit
  | report d => Drive.report policy d
  | event e => Drive.tell receiver e

def tellItems (policy : Policy S) (receiver : Receiver S) (items : List Item) : Drive S Unit :=
  items.forM (·.tell policy receiver)

/-- Carry out a transcript. -/
def Transcript.tell (policy : Policy S) (receiver : Receiver S) (t : Transcript) :
    Drive S Unit := do
  tellItems policy receiver t.items
  match t.failure with
  | some e => throw e
  | none => return ()

/-- Carry out an outcome, and go on. -/
def Outcome.tell (policy : Policy S) (receiver : Receiver S) (o : Outcome)
    (k : Reading → Drive S Unit) : Drive S Unit := do
  tellItems policy receiver o.items
  match o.onward with
  | .continue r => k r
  | .stop (some e) => throw e
  | .stop none => return ()

namespace Drive

variable {policy : Policy S} {receiver : Receiver S} {schema : Schema} {origin : Origin}
  {r : Reading} {k : Reading → Drive S Unit}

theorem throw_bind (e : ReadFailure) (f : α → Drive S β) :
    ((throw e : Drive S α) >>= f) = throw e := rfl

theorem tellItems_nil : tellItems policy receiver [] = pure () := rfl

theorem tellItems_cons (item : Item) (items : List Item) :
    tellItems policy receiver (item :: items) =
      (do item.tell policy receiver; tellItems policy receiver items) := rfl

theorem tellItems_append (items more : List Item) :
    tellItems policy receiver (items ++ more) =
      (do tellItems policy receiver items; tellItems policy receiver more) := by
  induction items with
  | nil => rw [tellItems_nil, pure_bind, List.nil_append]
  | cons item items ih => rw [List.cons_append, tellItems_cons, tellItems_cons, ih, bind_assoc]

/-- A fatal diagnostic is escalated. -/
theorem report_of_fatal {d : Diagnostic} (h : d.severity = .fatal) :
    report policy d = (do throw (← escalate policy d)) := by
  funext s
  change policy.report s d = (.error (policy.escalate s d).1, (policy.escalate s d).2)
  unfold Policy.report Policy.escalate
  rw [h]
  match policy.receive s .fatal d with
  | (.error _, _) => rfl
  | (.ok (), _) => rfl

theorem fatal_eq (position : Nat) (fault : DocumentFault) :
    fatal policy r position fault = (r.fatal position fault).tell policy receiver k := by
  simp only [fatal, Outcome.tell, Reading.fatal, tellItems_cons, tellItems_nil, Item.tell,
    report_of_fatal, bind_assoc, throw_bind]

theorem fatal_bind (position : Nat) (fault : DocumentFault) (f : α → Drive S Unit) :
    (fatal policy r position fault >>= f) = (r.fatal position fault).tell policy receiver k := by
  simp only [← fatal_eq, fatal, bind_assoc, throw_bind]

theorem reportAll_eq (receiver : Receiver S) (position : Nat) (findings : List Schema.Finding) :
    reportAll policy r position findings =
      tellItems policy receiver (r.reports position findings) := by
  induction findings with
  | nil => rfl
  | cons f findings ih =>
    rw [Reading.reports, List.map_cons, tellItems_cons]
    exact congrArg _ (funext fun _ => ih)

/-! ## Namespaces -/

theorem orFatal_ok (position : Nat) (a : α) :
    orFatal policy r position (.ok a) = pure a := rfl

theorem orFatal_error (position : Nat) (fault : Namespace.Fault) :
    (orFatal policy r position (.error fault) : Drive S α) =
      fatal policy r position (.badNamespace fault) := rfl

theorem orFatal_bind (position : Nat) (x : Except Namespace.Fault α)
    (f : α → Except Namespace.Fault β) :
    orFatal policy r position (x >>= f) =
      (do orFatal policy r position (f (← orFatal policy r position x))) := by
  cases x with
  | error fault =>
    change fatal policy r position _ = fatal policy r position _ >>= _
    simp only [fatal, bind_assoc, throw_bind]
  | ok a => rfl

theorem orFatal_mapM (position : Nat) (f : α → Except Namespace.Fault β) (as : List α) :
    orFatal policy r position (as.mapM f) = as.mapM fun a => orFatal policy r position (f a) := by
  induction as with
  | nil => rfl
  | cons a as ih =>
    rw [List.mapM_cons, List.mapM_cons, orFatal_bind]
    refine congrArg _ (funext fun b => ?_)
    rw [orFatal_bind, ih]
    rfl

/-- Faults are reported one by one, and the first one ends the parse. -/
theorem resolve_eq (position : Nat) (scopes : Namespace.Scopes) (name : String)
    (attributes : List (String × String)) :
    resolve policy r position scopes name attributes =
      orFatal policy r position (Reading.resolve scopes name attributes) := by
  unfold Reading.resolve
  rw [orFatal_bind]
  refine congrArg _ (funext fun name => ?_)
  rw [orFatal_bind, orFatal_mapM]
  refine congrArg (· >>= _) (congrArg (List.mapM · attributes) (funext fun (n, v) => ?_))
  rw [orFatal_bind]
  rfl

/-! ## Elements and text -/

/-- The validator looks at something, what it finds is reported, and then the receiver is told. -/
theorem validate_tell (position : Nat)
    (look : Schema.Validator → List Schema.Finding × Schema.Validator) (e : Event)
    (next : Option Schema.Validator → Reading) :
    (do
      let validator ← validate policy r position look
      tell receiver e
      k (next validator)) =
    match r.validator with
    | none => Outcome.tell policy receiver ⟨[.event e], .continue (next none)⟩ k
    | some v =>
      Outcome.tell policy receiver
        ⟨r.reports position (look v).1 ++ [.event e], .continue (next (some (look v).2))⟩ k := by
  unfold validate Outcome.tell
  cases r.validator with
  | none => simp [tellItems_cons, tellItems_nil, Item.tell]
  | some v =>
    simp [tellItems_append, tellItems_cons, tellItems_nil, Item.tell,
      reportAll_eq receiver]

theorem openElement_bind (position : Nat) (name : String)
    (attributes : List Reading.WrittenAttribute) :
    (openElement policy receiver schema r position name attributes >>= k) =
      (r.openElement schema position name attributes).tell policy receiver k := by
  unfold openElement Reading.openElement
  split
  · exact fatal_bind position _ k
  · cases r.scopes.enter (Reading.declarationsOf attributes) with
    | error fault =>
      simp only [orFatal_error, bind_assoc]
      exact fatal_bind position _ _
    | ok scopes =>
      simp only [orFatal_ok, resolve_eq, pure_bind, bind_assoc]
      cases Reading.resolve scopes name (Reading.plainOf attributes) with
      | error fault => exact fatal_bind position _ _
      | ok resolved =>
        obtain ⟨-, opened, seen, validator⟩ := r
        simp only [orFatal_ok, pure_bind]
        cases validator with
        | none => exact validate_tell position _ _ _
        | some v => exact validate_tell position _ _ _

theorem closeElement_bind (position : Nat) (written : String) :
    (closeElement policy receiver schema r position written >>= k) =
      (r.closeElement schema position written).tell policy receiver k := by
  obtain ⟨scopes, opened, seen, validator⟩ := r
  unfold closeElement Reading.closeElement
  cases opened with
  | nil => exact fatal_bind position _ k
  | cons name outer =>
    simp only [bind_assoc, pure_bind]
    cases validator with
    | none => exact validate_tell position _ _ _
    | some v => exact validate_tell position _ _ _

theorem characters_bind (position : Nat) (s : String) :
    (characters policy receiver r position s >>= k) =
      (r.characters position s).tell policy receiver k := by
  unfold characters Reading.characters
  split
  · simp [Outcome.tell, tellItems_nil]
  · split
    · split
      · simp [Outcome.tell, tellItems_nil]
      · exact fatal_bind position _ k
    · obtain ⟨scopes, opened, seen, validator⟩ := r
      simp only [bind_assoc, pure_bind]
      cases validator with
      | none => exact validate_tell position _ _ _
      | some v => exact validate_tell position _ _ _

/-! ## Whole documents -/

theorem lift_bind (x : Except ReadFailure α) (f : α → Except ReadFailure β) :
    (liftM (x >>= f) : Drive S β) = (do liftM (f (← liftM x))) := by
  cases x <;> rfl

theorem lift_pure (a : α) : (liftM (pure a : Except ReadFailure α) : Drive S α) = pure a := rfl

theorem orFail_bind {x : Except ReadFailure α} {f : α → Outcome} {g : α → Drive S Unit}
    (h : ∀ a, g a = (f a).tell policy receiver k) :
    ((liftM x : Drive S α) >>= g) = (Reading.orFail x f).tell policy receiver k := by
  cases x with
  | error e => rfl
  | ok a => exact h a

theorem goOn_bind : (pure r >>= k) = Outcome.tell policy receiver ⟨[], .continue r⟩ k := by
  rw [Outcome.tell, tellItems_nil, pure_bind, pure_bind]

variable [Text.Decoders]

theorem step_bind (x : Lexeme) :
    (step policy receiver schema origin r x >>= k) =
      (r.step schema origin x).tell policy receiver k := by
  unfold step Reading.step
  cases x.piece with
  | startTag content nameLength =>
    refine Eq.trans ?_ (orFail_bind fun tag => openElement_bind x.position tag.1 tag.2)
    simp only [lift_bind, lift_pure, bind_assoc, pure_bind]
  | endTag name =>
    refine Eq.trans ?_ (orFail_bind fun name => closeElement_bind x.position name)
    simp only [lift_bind, bind_assoc]
  | text content =>
    rw [bind_assoc]
    exact orFail_bind fun s => characters_bind x.position s
  | cdata content =>
    rw [bind_assoc]
    exact orFail_bind fun s => characters_bind x.position s
  | declaration content =>
    refine Eq.trans ?_ (orFail_bind fun _ => goOn_bind)
    simp only [lift_bind, bind_assoc]
  | instruction =>
    rw [bind_assoc]
    exact orFail_bind fun _ => goOn_bind
  | comment => exact goOn_bind
  | doctype => exact goOn_bind

theorem finish_eq (k : Reading → Drive S Unit) (position : Nat) (fault : Option LexFault) :
    finish policy receiver r position fault = (r.finish position fault).tell policy receiver k := by
  unfold finish Reading.finish
  cases fault with
  | some fault => exact orFail_bind fun fault => fatal_eq position fault
  | none =>
    cases r.openElements with
    | cons name outer => exact fatal_eq position _
    | nil =>
      dsimp only
      split
      · simp [Outcome.tell, tellItems_cons, tellItems_nil, Item.tell]
      · exact fatal_eq position _

/-- What a driver does with the remaining pieces of markup is to tell what the reading makes of
them. -/
theorem remaining_eq (position : Nat) (fault : Option LexFault) (lexemes : List Lexeme) :
    remaining policy receiver schema origin position fault r lexemes =
      (r.run schema origin position fault lexemes).tell policy receiver := by
  induction lexemes generalizing r with
  | nil =>
    rw [remaining, finish_eq fun _ => pure (), Reading.run]
    unfold Outcome.tell Transcript.tell
    dsimp only
    split
    · next h => simp only [h]
    · next h => simp only [h]
    · next h => simp only [h]
  | cons x lexemes ih =>
    rw [remaining, step_bind, Reading.run]
    unfold Outcome.tell Transcript.tell
    dsimp only
    split
    · next h => simp only [h, ih, Transcript.tell, tellItems_append, bind_assoc]
    · next h => simp only [h]
    · next h => simp only [h]

/-- **Driving.** To drive a document is to hand over its transcript. -/
theorem document_eq (schema : Option Schema) (origin : Origin) (lexing : Lexing) :
    document policy receiver schema origin lexing =
      (transcriptOf schema origin lexing).tell policy receiver := by
  rw [document, remaining_eq]
  unfold transcriptOf Transcript.tell
  rw [tellItems_cons, bind_assoc]
  rfl

end Drive

/-! ## Inputs -/

namespace DocumentReader

variable [Text.Decoders]

/-- The pieces of an input, and where they come from. -/
def lexing (r : DocumentReader) (input : Input) : Except ReadFailure (Origin × Lexing) :=
  (input.opened r.settings.bufferSize).map fun
    | .text s =>
      (.text (withoutMark s).toUTF8, lexText r.settings.trimText (withoutMark s))
    | .stream supply => (.stream, supply.lex r.settings.trimText)

theorem transcript_eq_map (r : DocumentReader) (input : Input) :
    r.transcript input =
      (r.lexing input).map fun (origin, lexing) => transcriptOf r.schema origin lexing := by
  rw [transcript, lexing]
  cases input.opened r.settings.bufferSize with
  | error e => rfl
  | ok opened => cases opened <;> rfl

variable {r : DocumentReader} {input : Input}

theorem transcript_of_lexing {origin : Origin} {lexing : Lexing}
    (h : r.lexing input = .ok (origin, lexing)) :
    r.transcript input = .ok (transcriptOf r.schema origin lexing) := by
  rw [transcript_eq_map, h]
  rfl

theorem exists_transcriptOf {t : Transcript} (h : r.transcript input = .ok t) :
    ∃ origin lexing, t = transcriptOf r.schema origin lexing := by
  rw [transcript_eq_map] at h
  obtain ⟨⟨origin, lexing⟩, -, rfl⟩ := ok_of_map h
  exact ⟨origin, lexing, rfl⟩

/-- To read an input is to open it, and to hand over its transcript. -/
theorem drive_eq (r : DocumentReader) (input : Input) (policy : Policy S)
    (receiver : Receiver S) :
    r.drive input policy receiver = (do (← r.transcript input).tell policy receiver) := by
  unfold drive transcript
  cases input.opened r.settings.bufferSize with
  | error e => rfl
  | ok opened =>
    cases opened with
    | text s => exact Drive.document_eq r.schema _ _
    | stream supply => exact Drive.document_eq r.schema _ _

end DocumentReader

end ScopedXml
