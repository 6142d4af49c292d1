import ScopedXml.Proofs.Reader.Ending

/-!
# Readings that end within a tag

A reading that stops at a tag which is not seen to end says so in one fixed message
(`Reading.insideTag_of_unseen`), and no other failure has that message (`Reading.step_insideTag`,
`Reading.finish_not_insideTag`).
-/

namespace ScopedXml.Reading

open Markup

variable {schema : Schema} {setup : LexerSetup} {r r' : Reading} {l next : Lexer} {x : Lexeme}

/-- Reading ended within a tag. -/
def InsideTag (failure : Option ReadFailure) : Prop :=
  ∃ p, failure = some (.malformed p "Unexpected end of input inside a tag")

theorem insideTag_of_unseen [Text.Decoders] {origin : Origin}
    (htoken : l.step setup = .token x next)
    (hmust : x.piece.mustClose = true) (hunseen : origin.sees x = false) :
    InsideTag (along schema origin setup r l).failure := by
  have hclosed : checkClosed origin x =
      .error (.malformed x.position "Unexpected end of input inside a tag") :=
    if_neg (by simp [hunseen])
  have hstop : (r.step schema origin x).onward =
      .stop (some (.malformed x.position "Unexpected end of input inside a tag")) := by
    unfold step
    cases hx : x.piece with
    | startTag content nameLength => rw [hclosed]; rfl
    | endTag name => rw [hclosed]; rfl
    | declaration content => rw [hclosed]; rfl
    | instruction => rw [hclosed]; rfl
    | text content => simp [hx, Piece.mustClose] at hmust
    | cdata content => simp [hx, Piece.mustClose] at hmust
    | comment => simp [hx, Piece.mustClose] at hmust
    | doctype => simp [hx, Piece.mustClose] at hmust
  rw [along_stop htoken hstop]
  exact ⟨x.position, rfl⟩

/-! ## Messages -/

theorem getElem?_toList_append {s : String} {c : Char} {n : Nat} (t : String)
    (h : s.toList[n]? = some c) : (s ++ t).toList[n]? = some c := by
  obtain ⟨hn, -⟩ := List.getElem?_eq_some_iff.mp h
  rw [String.toList_append, List.getElem?_append_left hn, h]

theorem message_ne_of_getElem? {s : String} {c : Char} {n : Nat} (h : s.toList[n]? = some c)
    (hn : "Unexpected end of input inside a tag".toList[n]? ≠ some c) :
    s ≠ "Unexpected end of input inside a tag" := by
  rintro rfl
  exact hn h

theorem attributeFault_message_ne (fault : AttributeFault) :
    fault.message ≠ "Unexpected end of input inside a tag" := by
  have hbegins : "position ".toList[0]? = some 'p' := by decide
  have key : ∀ {s : String}, s.toList[0]? = some 'p' → s ≠ "Unexpected end of input inside a tag" :=
    fun h => message_ne_of_getElem? h (by decide)
  have htwo : ∀ t u : String, ("position " ++ t ++ u).toList[0]? = some 'p' := fun t u =>
    getElem?_toList_append _ (getElem?_toList_append _ hbegins)
  cases fault with
  | noEquals p => exact key (htwo _ _)
  | noValue p => exact key (htwo _ _)
  | noQuote p => exact key (htwo _ _)
  | unclosedQuote p q =>
    exact key (getElem?_toList_append _ (getElem?_toList_append _ (htwo _ _)))
  | duplicate p q => exact key (getElem?_toList_append _ (htwo _ _))

theorem ranged_message_ne (start stop : Nat) (what : String) :
    ReferenceFault.ranged start stop what ≠ "Unexpected end of input inside a tag" := by
  have hbegins : "Error while escaping character at range ".toList[0]? = some 'E' := by decide
  have h : (ReferenceFault.ranged start stop what).toList[0]? = some 'E' :=
    getElem?_toList_append _ (getElem?_toList_append _ (getElem?_toList_append _
      (getElem?_toList_append _ (getElem?_toList_append _ hbegins))))
  exact message_ne_of_getElem? h (by decide)

theorem quoted_message_ne (t u : String) :
    "'" ++ t ++ u ≠ "Unexpected end of input inside a tag" := by
  have hbegins : "'".toList[0]? = some '\'' := by decide
  exact message_ne_of_getElem? (getElem?_toList_append _ (getElem?_toList_append _ hbegins))
    (by decide)

theorem referenceFault_message_ne (fault : ReferenceFault) :
    fault.message ≠ "Unexpected end of input inside a tag" := by
  cases fault with
  | zero a b => exact ranged_message_ne _ _ _
  | unknown a b n => exact ranged_message_ne _ _ _
  | unclosed a b => exact ranged_message_ne _ _ _
  | longHexadecimal => decide
  | longDecimal => decide
  | badHexadecimal c => exact quoted_message_ne _ _
  | badDecimal c => exact quoted_message_ne _ _
  | noCharacter n => exact quoted_message_ne _ _

/-! ## Pieces of markup -/

/-- Does not fail as if within a tag. -/
def Clean {α : Type} (result : Except ReadFailure α) : Prop :=
  ∀ p, result ≠ .error (.malformed p "Unexpected end of input inside a tag")

theorem Clean.ok {α : Type} (a : α) : Clean (.ok a) := by
  intro p h
  cases h

theorem Clean.bind {α β : Type} {result : Except ReadFailure α} {f : α → Except ReadFailure β}
    (h : Clean result) (hf : ∀ a, Clean (f a)) : Clean (result >>= f) := by
  cases result with
  | ok a => exact hf a
  | error e =>
    intro p hp
    cases hp
    exact h p rfl

theorem Clean.mapM {α β : Type} {f : α → Except ReadFailure β} (hf : ∀ a, Clean (f a))
    (l : List α) : Clean (l.mapM f) := by
  induction l with
  | nil => exact .ok _
  | cons a l ih =>
    rw [List.mapM_cons]
    exact (hf a).bind fun b => ih.bind fun bs => .ok _

theorem Clean.malformed {α : Type} {p : Nat} {message : String}
    (h : message ≠ "Unexpected end of input inside a tag") :
    Clean (.error (.malformed p message) : Except ReadFailure α) := by
  intro p' hp
  cases hp
  exact h rfl

theorem decodeName_clean [Text.Decoders] (x : Lexeme) (bytes : List UInt8) :
    Clean (decodeName x bytes) := by
  unfold decodeName
  split
  · exact .ok _
  · intro p h
    cases h

theorem decodeText_clean [Text.Decoders] (x : Lexeme) (bytes : List UInt8) :
    Clean (decodeText x bytes) := by
  unfold decodeText
  split
  · intro p h
    cases h
  · split
    · exact .ok _
    · exact .malformed (referenceFault_message_ne _)

theorem writtenAttributes_clean [Text.Decoders] (x : Lexeme) (content : List UInt8)
    (nameLength : Nat) :
    Clean (writtenAttributes x content nameLength) := by
  unfold writtenAttributes
  refine (Clean.mapM (fun raw => ?_) _).bind fun attributes => ?_
  · refine (decodeName_clean x raw.key).bind fun key => (decodeText_clean x raw.value).bind
      fun value => ?_
    split
    · exact .ok _
    · split <;> exact .ok _
  · split
    · exact .malformed (attributeFault_message_ne _)
    · exact .ok _

theorem charset_clean (label : String) : Clean (Input.charset label) := by
  unfold Input.charset
  split
  · exact .ok _
  · intro p h
    cases h

theorem checkEncoding_clean (p : Nat) (label : List UInt8) : Clean (checkEncoding p label) := by
  unfold checkEncoding
  refine (charset_clean _).bind fun charset => ?_
  split
  · exact .ok _
  · intro p' h
    cases h

theorem checkDeclaration_clean (origin : Origin) (p : Nat) (content : List UInt8) :
    Clean (checkDeclaration origin p content) := by
  unfold checkDeclaration
  split
  · have hbegins : "error while parsing attribute: ".toList[0]? = some 'e' := by decide
    exact .malformed (message_ne_of_getElem? (getElem?_toList_append _ hbegins) (by decide))
  · exact checkEncoding_clean _ _
  · exact .ok _

/-- How a reading can stop without a failure of its own. -/
theorem failure_of_openElement {p : Nat} {name : String} {attributes : List WrittenAttribute}
    {failure : Option ReadFailure}
    (h : (openElement schema r p name attributes).onward = .stop failure) : failure = none := by
  unfold openElement at h
  split at h
  · cases h
    rfl
  · split at h
    · cases h
      rfl
    · split at h
      · cases h
        rfl
      · dsimp only at h
        split at h <;> cases h

theorem failure_of_closeElement {p : Nat} {written : String} {failure : Option ReadFailure}
    (h : (closeElement schema r p written).onward = .stop failure) : failure = none := by
  unfold closeElement at h
  split at h
  · cases h
    rfl
  · split at h <;> cases h

theorem failure_of_characters {p : Nat} {s : String} {failure : Option ReadFailure}
    (h : (r.characters p s).onward = .stop failure) : failure = none := by
  unfold characters at h
  split at h
  · cases h
  · split at h
    · split at h
      · cases h
      · cases h
        rfl
    · split at h <;> cases h

theorem not_insideTag_none : ¬ InsideTag none := by
  rintro ⟨p, hp⟩
  cases hp

/-- A failure as if within a tag is that of the first part. -/
theorem error_of_orFail {α : Type} {result : Except ReadFailure α} {f : α → Outcome}
    {failure : Option ReadFailure} (hstop : (orFail result f).onward = .stop failure)
    (hinside : InsideTag failure)
    (hf : ∀ a failure, (f a).onward = .stop failure → failure = none) : ¬ Clean result := by
  intro hclean
  cases result with
  | ok a =>
    obtain rfl := hf a failure hstop
    exact not_insideTag_none hinside
  | error e =>
    cases hstop
    obtain ⟨p, hp⟩ := hinside
    cases hp
    exact hclean p rfl

theorem checkClosed_clean {origin : Origin} (h : origin.sees x = true) :
    Clean (checkClosed origin x) := by
  rw [checkClosed, if_pos h]
  exact .ok ()

/-- No other failure reads like that of a tag that is cut off. -/
theorem step_insideTag [Text.Decoders] {origin : Origin} {failure : Option ReadFailure}
    (hstop : (r.step schema origin x).onward = .stop failure) (hinside : InsideTag failure) :
    x.piece.mustClose = true ∧ origin.sees x = false := by
  have hcontinues : ∀ (a : Unit) (failure : Option ReadFailure),
      (⟨[], .continue r⟩ : Outcome).onward = .stop failure → failure = none := by
    intro a failure h
    cases h
  unfold step at hstop
  cases hx : x.piece with
  | startTag content nameLength =>
    rw [hx] at hstop
    refine ⟨rfl, Bool.eq_false_iff.mpr fun hsees => ?_⟩
    refine error_of_orFail hstop hinside (fun a failure => failure_of_openElement) ?_
    exact (checkClosed_clean hsees).bind fun _ => (decodeName_clean _ _).bind fun _ =>
      (writtenAttributes_clean _ _ _).bind fun _ => .ok _
  | endTag name =>
    rw [hx] at hstop
    refine ⟨rfl, Bool.eq_false_iff.mpr fun hsees => ?_⟩
    refine error_of_orFail hstop hinside (fun a failure => failure_of_closeElement) ?_
    exact (checkClosed_clean hsees).bind fun _ => decodeName_clean _ _
  | declaration content =>
    rw [hx] at hstop
    refine ⟨rfl, Bool.eq_false_iff.mpr fun hsees => ?_⟩
    refine error_of_orFail hstop hinside hcontinues ?_
    exact (checkClosed_clean hsees).bind fun _ => checkDeclaration_clean _ _ _
  | instruction =>
    rw [hx] at hstop
    refine ⟨rfl, Bool.eq_false_iff.mpr fun hsees => ?_⟩
    exact error_of_orFail hstop hinside hcontinues (checkClosed_clean hsees)
  | text content =>
    rw [hx] at hstop
    exact (error_of_orFail hstop hinside (fun a failure => failure_of_characters)
      (decodeText_clean _ _)).elim
  | cdata content =>
    rw [hx] at hstop
    exact (error_of_orFail hstop hinside (fun a failure => failure_of_characters)
      (decodeName_clean _ _)).elim
  | comment =>
    rw [hx] at hstop
    cases hstop
  | doctype =>
    rw [hx] at hstop
    cases hstop

theorem not_insideTag_malformed {p : Nat} {message : String}
    (h : message ≠ "Unexpected end of input inside a tag") :
    ¬ InsideTag (some (.malformed p message)) := by
  rintro ⟨p', hp⟩
  cases hp
  exact h rfl

theorem lexFault_not_insideTag [Text.Decoders] {p : Nat} {fault : LexFault}
    {failure : Option ReadFailure}
    (h : (r.lexFault p fault).onward = .stop failure) : ¬ InsideTag failure := by
  cases fault with
  | unreadable m =>
    cases h
    rintro ⟨p', hp⟩
    cases hp
  | unexpectedEnd what =>
    cases h
    have hbegins : "Unexpected EOF during reading ".toList[11]? = some 'E' := by decide
    exact not_insideTag_malformed
      (message_ne_of_getElem? (getElem?_toList_append _ hbegins) (by decide))
  | unknownBang b =>
    cases h
    have hbegins : "Only Comment (`--`), CDATA (`[CDATA[`) and DOCTYPE (`DOCTYPE`) ".toList[0]? =
      some 'O' := by decide
    exact not_insideTag_malformed (message_ne_of_getElem? (getElem?_toList_append _
      (getElem?_toList_append _ (getElem?_toList_append _ hbegins))) (by decide))
  | emptyDoctype =>
    cases h
    exact not_insideTag_malformed (by decide)
  | endMismatch charset expected found =>
    cases h
    exact not_insideTag_none

theorem finish_not_insideTag [Text.Decoders] (schema : Schema) (origin : Origin) (p : Nat)
    (fault : Option LexFault) : ¬ InsideTag (r.run schema origin p fault []).failure := by
  rw [run]
  cases hfinish : (r.finish p fault).onward with
  | «continue» r' => exact not_insideTag_none
  | stop failure =>
    change ¬ InsideTag failure
    unfold finish at hfinish
    split at hfinish
    · exact lexFault_not_insideTag hfinish
    · split at hfinish
      · cases hfinish
        exact not_insideTag_none
      · split at hfinish
        · cases hfinish
          exact not_insideTag_none
        · cases hfinish
          exact not_insideTag_none

end ScopedXml.Reading
