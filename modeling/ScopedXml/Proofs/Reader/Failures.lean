import ScopedXml.Proofs.Outcome
import ScopedXml.Proofs.Reader.Nesting

/-!
# Where a failure comes from

A parse that fails does so because of its input, or because one of its listeners said so. What
reading fails with of itself is a matter of bytes, encodings and markup (`ReadFailure.ofInput`); it
never blames the policy or the handlers.

* `Reading.run_blames`: the failure in which a transcript may end.
* `deliverItems_feed`: the receiver is fed with the events that are handed over, and a failure is
  its own or that of the policy.
* `DocumentReader.parse_feed`: both together.
-/

namespace ScopedXml

open Markup

variable {P C : Type}

/-! ## The input -/

/-- Whether it is the input that is at fault. -/
def ReadFailure.ofInput : ReadFailure → Bool
  | unreadable _ | undecodable _ _ | unknownEncoding _ | malformed _ _ => true
  | invalid _ | handler _ | noActiveHandler => false

/-- A computation that fails only because of the input. -/
def BlamesInput {α : Type} (x : Except ReadFailure α) : Prop :=
  ∀ e, x = .error e → e.ofInput = true

namespace BlamesInput

variable {α β : Type}

theorem ok (a : α) : BlamesInput (.ok a) := by
  intro e h
  cases h

theorem error {e : ReadFailure} (h : e.ofInput = true) : BlamesInput (.error e : Except _ α) := by
  intro e' h'
  cases h'
  exact h

theorem bind {x : Except ReadFailure α} {f : α → Except ReadFailure β} (hx : BlamesInput x)
    (hf : ∀ a, BlamesInput (f a)) : BlamesInput (x >>= f) := by
  cases x with
  | error e => exact error (hx e rfl)
  | ok a => exact hf a

theorem mapM {f : α → Except ReadFailure β} (hf : ∀ a, BlamesInput (f a)) (as : List α) :
    BlamesInput (as.mapM f) := by
  induction as with
  | nil => exact ok []
  | cons a as ih =>
    rw [List.mapM_cons]
    exact (hf a).bind fun b => ih.bind fun bs => .ok _

end BlamesInput

/-! ## Opening -/

theorem ByteSource.readAll_blames (source : ByteSource) : BlamesInput source.readAll := by
  unfold readAll
  dsimp only
  split
  · exact .error rfl
  · exact .ok _

theorem Input.charset_blames (label : String) : BlamesInput (charset label) := by
  unfold charset
  split
  · exact .ok _
  · exact .error rfl

theorem Input.decoded_blames [Text.Decoders] (charset : Text.Charset) (bytes : List UInt8) :
    BlamesInput (decoded charset bytes) := by
  unfold decoded
  split
  · exact .ok _
  · exact .error rfl

theorem Input.opened_blames [Text.Decoders] (input : Input) (bufferSize : Nat) :
    BlamesInput (input.opened bufferSize) := by
  unfold opened
  split
  · exact .ok _
  · exact (charset_blames _).bind fun _ =>
      (ByteSource.readAll_blames _).bind fun _ => decoded_blames _ _
  · dsimp only
    split
    · exact .error rfl
    · split
      · exact (ByteSource.readAll_blames _).bind fun _ => decoded_blames _ _
      · exact .ok _

/-! ## Reading -/

namespace Reading

variable {schema : Schema} {origin : Origin} {r : Reading}

theorem decodeName_blames [Text.Decoders] (lexeme : Lexeme) (bytes : List UInt8) :
    BlamesInput (decodeName lexeme bytes) := by
  unfold decodeName
  split
  · exact .ok _
  · exact .error rfl

theorem decodeText_blames [Text.Decoders] (lexeme : Lexeme) (bytes : List UInt8) :
    BlamesInput (decodeText lexeme bytes) := by
  unfold decodeText
  split
  · exact .error rfl
  · split
    · exact .ok _
    · exact .error rfl

theorem writtenAttribute_blames [Text.Decoders] (lexeme : Lexeme) (raw : RawAttribute) :
    BlamesInput (writtenAttribute lexeme raw) := by
  unfold writtenAttribute
  refine (decodeName_blames lexeme _).bind fun key => (decodeText_blames lexeme _).bind fun value =>
    ?_
  split
  · exact .ok _
  · split <;> exact .ok _

theorem writtenAttributes_blames [Text.Decoders] (lexeme : Lexeme) (content : List UInt8)
    (nameLength : Nat) :
    BlamesInput (writtenAttributes lexeme content nameLength) := by
  unfold writtenAttributes
  dsimp only
  refine (BlamesInput.mapM (writtenAttribute_blames lexeme) _).bind fun attributes => ?_
  split
  · exact .error rfl
  · exact .ok _

theorem checkClosed_blames (lexeme : Lexeme) : BlamesInput (checkClosed origin lexeme) := by
  unfold checkClosed
  split
  · exact .ok _
  · exact .error rfl

theorem checkDeclaration_blames (position : Nat) (content : List UInt8) :
    BlamesInput (checkDeclaration origin position content) := by
  unfold checkDeclaration
  split
  · exact .error rfl
  · unfold checkEncoding
    refine (Input.charset_blames _).bind fun charset => ?_
    split
    · exact .ok _
    · exact .error rfl
  · exact .ok _

/-- If reading ends in a failure here, the input is at fault. -/
def Stops (o : Outcome) : Prop := ∀ e, o.onward = .stop (some e) → e.ofInput = true

theorem Stops.fail {e : ReadFailure} (h : e.ofInput = true) : Stops (.fail e) := by
  intro e' h'
  cases h'
  exact h

theorem Stops.fatal (position : Nat) (fault : DocumentFault) : Stops (r.fatal position fault) := by
  intro e h
  cases h

theorem Stops.goOn (items : List Item) (r' : Reading) : Stops ⟨items, .continue r'⟩ := by
  intro e h
  cases h

theorem Stops.orFail {α : Type} {x : Except ReadFailure α} {f : α → Outcome} (hx : BlamesInput x)
    (hf : ∀ a, Stops (f a)) : Stops (Reading.orFail x f) := by
  cases x with
  | error e => exact .fail (hx e rfl)
  | ok a => exact hf a

theorem openElement_stops (position : Nat) (name : String)
    (attributes : List WrittenAttribute) :
    Stops (openElement schema r position name attributes) := by
  unfold openElement
  split
  · exact .fatal position _
  · split
    · exact .fatal position _
    · split
      · exact .fatal position _
      · dsimp only
        split <;> exact .goOn _ _

theorem closeElement_stops (position : Nat) (written : String) :
    Stops (closeElement schema r position written) := by
  unfold closeElement
  split
  · exact .fatal position _
  · dsimp only
    split <;> exact .goOn _ _

theorem characters_stops (position : Nat) (s : String) : Stops (r.characters position s) := by
  unfold characters
  split
  · exact .goOn _ _
  · split
    · split
      · exact .goOn _ _
      · exact .fatal position _
    · split <;> exact .goOn _ _

theorem step_stops [Text.Decoders] (lexeme : Lexeme) : Stops (r.step schema origin lexeme) := by
  have hclosed : BlamesInput (checkClosed origin lexeme) := checkClosed_blames lexeme
  unfold step
  split
  · exact .orFail (hclosed.bind fun _ => (decodeName_blames lexeme _).bind fun _ =>
      (writtenAttributes_blames lexeme _ _).bind fun _ => .ok _) fun _ => openElement_stops _ _ _
  · exact .orFail (hclosed.bind fun _ => decodeName_blames lexeme _) fun _ => closeElement_stops _ _
  · exact .orFail (decodeText_blames lexeme _) (characters_stops _)
  · exact .orFail (decodeName_blames lexeme _) (characters_stops _)
  · exact .orFail (hclosed.bind fun _ => checkDeclaration_blames _ _) fun _ => .goOn _ _
  · exact .orFail hclosed fun _ => .goOn _ _
  · exact .goOn _ _
  · exact .goOn _ _

theorem lexFault_stops [Text.Decoders] (position : Nat) (fault : LexFault) :
    Stops (r.lexFault position fault) := by
  have hblames : BlamesInput (documentFault position fault) := by
    cases fault with
    | endMismatch charset expected found => exact .ok _
    | _ => exact .error rfl
  exact .orFail hblames (.fatal position)

theorem finish_stops [Text.Decoders] (position : Nat) (fault : Option LexFault) :
    Stops (r.finish position fault) := by
  unfold finish
  split
  · exact lexFault_stops position _
  · split
    · exact .fatal position _
    · split
      · intro e h
        cases h
      · exact .fatal position _

/-- If a reading ends in a failure of its own, the input is at fault. -/
theorem run_blames [Text.Decoders] (position : Nat) (fault : Option LexFault)
    (lexemes : List Lexeme)
    {e : ReadFailure} (h : (run schema origin position fault r lexemes).failure = some e) :
    e.ofInput = true := by
  induction lexemes generalizing r with
  | nil =>
    rw [run] at h
    split at h
    · next failure hstop =>
      obtain rfl : failure = some e := h
      exact finish_stops position fault e hstop
    · cases h
  | cons lexeme lexemes ih =>
    rw [run] at h
    dsimp only at h
    split at h
    · next failure hstop =>
      obtain rfl : failure = some e := h
      exact step_stops lexeme e hstop
    · exact ih h

end Reading

/-! ## Listening -/

/-- What handing over comes to for the receiver: it is fed with the events. A failure is that of the
receiver, or else the policy has answered the last diagnostic with it. -/
theorem deliverItems_feed (policy : Policy P) (receiver : Receiver C) (p : P) (c : C)
    (items : List Item) :
    let run := deliverItems policy receiver p c items
    let fed := receiver.feed c (eventsOf (handed policy receiver p c items))
    run.2.2 = fed.2 ∧
      (run.1 = fed.1 ∨ ∃ e asked d, fed.1 = .ok () ∧ run.1 = .error e ∧
        policy.report asked d = (.error e, run.2.1)) := by
  induction items generalizing p c with
  | nil => exact ⟨rfl, .inl rfl⟩
  | cons item items ih =>
    cases item with
    | report d =>
      match hreport : policy.report p d with
      | (.error e, after) =>
        have hitem : Item.deliver policy receiver p c (.report d) = (.error e, after, c) := by
          rw [Item.deliver, hreport]
        rw [deliverItems_cons_error hitem, handed_cons_error hitem]
        exact ⟨rfl, .inr ⟨e, p, d, rfl, rfl, hreport⟩⟩
      | (.ok (), after) =>
        have hitem : Item.deliver policy receiver p c (.report d) = (.ok (), after, c) := by
          rw [Item.deliver, hreport]
        rw [deliverItems_cons_ok hitem, handed_cons_ok hitem]
        exact ih after c
    | event event =>
      have hcons (items : List Item) : eventsOf (.event event :: items) = event :: eventsOf items :=
        rfl
      match hreceive : receiver.receive c event with
      | (.error e, next) =>
        have hitem : Item.deliver policy receiver p c (.event event) = (.error e, p, next) :=
          Item.deliver_event hreceive
        rw [deliverItems_cons_error hitem, handed_cons_error hitem, hcons, Receiver.feed, hreceive]
        exact ⟨rfl, .inl rfl⟩
      | (.ok (), next) =>
        have hitem : Item.deliver policy receiver p c (.event event) = (.ok (), p, next) :=
          Item.deliver_event hreceive
        rw [deliverItems_cons_ok hitem, handed_cons_ok hitem, hcons,
          Receiver.feed_cons_of_ok hreceive]
        exact ih p next

/-! ## Whole parses -/

theorem transcriptOf_blames [Text.Decoders] {schema : Option Schema} {origin : Origin}
    {lexing : Lexing} {e : ReadFailure} (h : (transcriptOf schema origin lexing).failure = some e) :
    e.ofInput = true :=
  Reading.run_blames lexing.position lexing.fault lexing.lexemes h

theorem Transcript.deliver_feed {t : Transcript} (ht : ∀ e, t.failure = some e → e.ofInput = true)
    (policy : Policy P) (receiver : Receiver C) (p : P) (c : C) :
    let run := t.deliver policy receiver p c
    let fed := receiver.feed c (eventsOf (handed policy receiver p c t.items))
    run.2.2 = fed.2 ∧ (run.1 = .ok () → fed.1 = .ok ()) ∧
      ∀ e, run.1 = .error e → e.ofInput = true ∨ fed.1 = .error e ∨
        ∃ asked d, policy.report asked d = (.error e, run.2.1) := by
  have hfeed := deliverItems_feed policy receiver p c t.items
  rw [t.deliver_eq]
  generalize deliverItems policy receiver p c t.items = run at hfeed
  generalize receiver.feed c (eventsOf (handed policy receiver p c t.items)) = fed at hfeed
  obtain ⟨answer, after⟩ := run
  obtain ⟨hchain, hanswer⟩ := hfeed
  dsimp only at hchain hanswer ⊢
  refine ⟨hchain, fun hok => ?_, fun e he => ?_⟩
  · obtain ⟨_, hitems, -⟩ := bind_ok hok
    rcases hanswer with hfed | ⟨e, asked, d, -, herror, -⟩
    · exact hfed.symm.trans hitems
    · rw [hitems] at herror
      cases herror
  · cases answer with
    | error e' =>
      obtain rfl : e' = e := Except.error.inj he
      rcases hanswer with hfed | ⟨e'', asked, d, -, herror, hreport⟩
      · exact .inr (.inl hfed.symm)
      · obtain rfl := Except.error.inj herror
        exact .inr (.inr ⟨asked, d, hreport⟩)
    | ok _ =>
      cases hfailure : t.failure with
      | none =>
        rw [hfailure] at he
        cases he
      | some e' =>
        rw [hfailure] at he
        obtain rfl : e' = e := Except.error.inj he
        exact .inl (ht e' hfailure)

/-- How a parse ends, seen from the events that the receiver was fed with. If it fails, then the
input is at fault, or the receiver failed, or the policy answered the last diagnostic so. -/
theorem DocumentReader.parse_feed [Text.Decoders] (r : DocumentReader) (input : Input)
    (policy : Policy P) (receiver : Receiver C) (p : P) (c : C) :
    let run := r.parse input policy receiver p c
    let fed := receiver.feed c (eventsOf (r.handed input policy receiver p c))
    run.2.2 = fed.2 ∧ (run.1 = .ok () → fed.1 = .ok ()) ∧
      ∀ e, run.1 = .error e → e.ofInput = true ∨ fed.1 = .error e ∨
        ∃ asked d, policy.report asked d = (.error e, run.2.1) := by
  cases htranscript : r.transcript input with
  | error e =>
    rw [parse_of_error htranscript, handed_of_error htranscript]
    refine ⟨rfl, ?_, fun e' he => .inl ?_⟩
    · intro hok
      cases hok
    · obtain rfl : e = e' := Except.error.inj he
      exact Input.opened_blames input _ e (error_of_map htranscript)
  | ok t =>
    rw [parse_of_transcript htranscript, handed_of_transcript htranscript]
    obtain ⟨origin, lexing, rfl⟩ := exists_transcriptOf htranscript
    exact Transcript.deliver_feed (fun e => transcriptOf_blames) policy receiver p c

end ScopedXml
