import ScopedXml.Proofs.Markup.Running
import ScopedXml.Proofs.Reader.Nesting

/-!
# How a reading comes to its end

`Reading.Ends` follows a reading and its lexer, piece by piece, to the end of a document. From the
end backwards it is seen what the input was (`RoundsOff`): a last `>`, text behind it that counts for
nothing, and perhaps one `<` that nothing follows.
-/

namespace ScopedXml.Reading

open Markup

variable {schema : Schema} {origin : Origin} {setup : LexerSetup} {r r' : Reading}
  {l next : Lexer} {x : Lexeme}

/-! ## Reading along a lexer -/

/-- All that a reading does with what a lexer finds. -/
def along [Text.Decoders] (schema : Schema) (origin : Origin) (setup : LexerSetup) (r : Reading)
    (l : Lexer) :
    Transcript :=
  let lexing := l.run setup
  r.run schema origin lexing.position lexing.fault lexing.lexemes

theorem along_done [Text.Decoders] {p : Nat} {fault : Option LexFault}
    (h : l.step setup = .done p fault) :
    along schema origin setup r l = r.run schema origin p fault [] := by
  rw [along, Lexer.run_done h]

theorem along_stop [Text.Decoders] {failure : Option ReadFailure} (h : l.step setup = .token x next)
    (hstop : (r.step schema origin x).onward = .stop failure) :
    along schema origin setup r l = ⟨(r.step schema origin x).items, failure⟩ := by
  rw [along, Lexer.run_token h]
  simp only [run, hstop]

theorem along_continue [Text.Decoders] (h : l.step setup = .token x next)
    (hcontinue : (r.step schema origin x).onward = .continue r') :
    along schema origin setup r l =
      { along schema origin setup r' next with
        items := (r.step schema origin x).items ++ (along schema origin setup r' next).items } := by
  rw [along, Lexer.run_token h]
  simp only [run, hcontinue, along]

/-- A reading that comes to the end of the document behind the pieces that the lexer still finds. -/
inductive Ends [Text.Decoders] (schema : Schema) (origin : Origin) (setup : LexerSetup) :
    Reading → Lexer → Prop
  | done {r : Reading} {l : Lexer} {p : Nat} : l.step setup = .done p none →
    r.openElements = [] → r.seenRoot = true → Ends schema origin setup r l
  | token {r r' : Reading} {l next : Lexer} {x : Lexeme} : l.step setup = .token x next →
    (r.step schema origin x).onward = .continue r' → Ends schema origin setup r' next →
    Ends schema origin setup r l

theorem Stride.endDocument_notMem {o : Outcome} (h : Stride r o) :
    .event .endDocument ∉ o.items := by
  intro hmem
  have hevents : .endDocument ∈ eventsOf o.items :=
    List.mem_filterMap.mpr ⟨_, hmem, rfl⟩
  cases h with
  | breaks hbreaks => simp [hbreaks.eventsOf_eq_nil] at hevents
  | rests => cases hevents
  | opens hitems => simp [hitems] at hevents
  | closes hitems => simp [hitems] at hevents
  | speaks hitems => simp [hitems] at hevents

theorem of_endDocument_finish [Text.Decoders] {p : Nat} {fault : Option LexFault}
    (h : .event .endDocument ∈ (r.run schema origin p fault []).items) :
    fault = none ∧ r.openElements = [] ∧ r.seenRoot = true := by
  have hitems : .event .endDocument ∈ (r.finish p fault).items := by
    rw [run] at h
    split at h <;> exact h
  unfold finish at hitems
  split at hitems
  · next fault =>
    have hbreaks : Breaks r (r.lexFault p fault) := lexFault_breaks p fault
    exact absurd hitems (Stride.breaks hbreaks).endDocument_notMem
  · split at hitems
    · next fault name _ _ =>
      exact absurd hitems (Stride.breaks (.fatal p (.unclosed name.written))).endDocument_notMem
    · next hopen =>
      split at hitems
      · next hseen => exact ⟨rfl, hopen, hseen⟩
      · exact absurd hitems (Stride.breaks (.fatal p .noRoot)).endDocument_notMem

theorem ends_of_endDocument [Text.Decoders]
    (h : .event .endDocument ∈ (along schema origin setup r l).items) :
    Ends schema origin setup r l := by
  induction l using Lexer.run.induct setup generalizing r with
  | case1 l p fault hdone =>
    rw [along_done hdone] at h
    obtain ⟨rfl, hopen, hseen⟩ := of_endDocument_finish h
    exact .done hdone hopen hseen
  | case2 l x next htoken ih =>
    have hstride : Stride r (r.step schema origin x) := step_stride x
    cases honward : (r.step schema origin x).onward with
    | stop failure =>
      rw [along_stop htoken honward] at h
      exact absurd h hstride.endDocument_notMem
    | «continue» r' =>
      rw [along_continue htoken honward] at h
      rcases List.mem_append.mp h with h | h
      · exact absurd h hstride.endDocument_notMem
      · exact .token htoken honward (ih h)

/-! ## Tags are looked at -/

/-- In a text the lexer counts the bytes it has read and keeps the last of them. -/
def Placed (origin : Origin) (l : Lexer) : Prop :=
  match origin with
  | .text body => ∃ consumed, body.data.toList = consumed ++ l.bytes ∧
      l.offset = consumed.length ∧ l.last = consumed.getLast?
  | .stream => True

theorem Placed.after {taken : List UInt8} (h : Placed origin l)
    (hleaves : Lexer.Leaves l x next taken) (hoffset : next.offset = l.offset + taken.length) :
    Placed origin next := by
  cases origin with
  | stream => trivial
  | text body =>
    obtain ⟨consumed, hbody, hcount, hlast⟩ := h
    refine ⟨consumed ++ taken, ?_, ?_, ?_⟩
    · rw [hbody, hleaves.bytes, List.append_assoc]
    · rw [hoffset, hcount, List.length_append]
    · rw [hleaves.last, hlast, List.getLast?_append]

theorem getElem?_body (body : ByteArray) (i : Nat) : body[i]? = body.data.toList[i]? := by
  by_cases h : i < body.size
  · have hlist : i < body.data.toList.length := h
    rw [getElem?_pos body i h, List.getElem?_eq_getElem hlist]
    rfl
  · have hlist : body.data.toList.length ≤ i := Nat.le_of_not_lt h
    rw [getElem?_neg body i h, List.getElem?_eq_none hlist]

/-- The byte that is looked at is the last of those that the position counts. -/
theorem sees_text {body : ByteArray} {consumed rest : List UInt8}
    (hbody : body.data.toList = consumed ++ rest) (hposition : x.position = consumed.length) :
    (Origin.text body).sees x = (consumed.getLast? == some 62) := by
  rw [Origin.sees, hposition, getElem?_body, hbody]
  rcases List.eq_nil_or_concat consumed with rfl | ⟨front, b, rfl⟩
  · rfl
  · simp

theorem Placed.sees (h : Placed origin next) (hposition : x.position = next.offset)
    (hlast : x.last = next.last) : origin.sees x = (next.last == some 62) := by
  cases origin with
  | stream => rw [Origin.sees, hlast]
  | text body =>
    obtain ⟨consumed, hbody, hcount, hconsumed⟩ := h
    rw [sees_text hbody (hposition.trans hcount), hconsumed]

/-- Reading goes on behind a tag only if the tag was seen to end. -/
theorem sees_of_continue [Text.Decoders] (hpiece : x.piece.mustClose = true)
    (h : (r.step schema origin x).onward = .continue r') : origin.sees x = true := by
  by_contra hsees
  have hclosed : checkClosed origin x =
      .error (.malformed x.position "Unexpected end of input inside a tag") := if_neg hsees
  unfold step at h
  cases hx : x.piece with
  | startTag content nameLength =>
    simp only [hx, hclosed] at h
    cases h
  | endTag name =>
    simp only [hx, hclosed] at h
    cases h
  | declaration content =>
    simp only [hx, hclosed] at h
    cases h
  | instruction =>
    simp only [hx, hclosed] at h
    cases h
  | text content => simp [hx, Piece.mustClose] at hpiece
  | cdata content => simp [hx, Piece.mustClose] at hpiece
  | comment => simp [hx, Piece.mustClose] at hpiece
  | doctype => simp [hx, Piece.mustClose] at hpiece

/-! ## What counts for nothing -/

/-- Bytes that say nothing: blanks of the markup, and between them blanks of the text. -/
def Idle [Text.Decoders] (charset : Text.Charset) (bytes : List UInt8) : Prop :=
  ∃ blanks shown after, bytes = blanks ++ shown ++ after ∧
    (∀ b ∈ blanks ++ after, Text.isMarkupBlank b = true) ∧
    (shown = [] ∨ ∃ s expanded, charset.decode? shown = some s ∧ expand s = .ok expanded ∧
      Text.allBlank expanded = true)

theorem Idle.nil [Text.Decoders] (charset : Text.Charset) : Idle charset [] :=
  ⟨[], [], [], rfl, by simp, .inl rfl⟩

theorem allBlank_of_characters {p : Nat} {s : String} (hopen : r'.openElements = [])
    (h : (r.characters p s).onward = .continue r') : Text.allBlank s = true := by
  unfold characters at h
  split at h
  · next hempty =>
    obtain rfl : s = "" := by simpa using hempty
    rfl
  · split at h
    · split at h
      · next hblank => exact hblank
      · cases h
    · next hsome =>
      have hopened : r.openElements ≠ [] := by simpa using hsome
      split at h
      · cases h
        exact absurd hopen hopened
      · cases h
        exact absurd hopen hopened

theorem idle_of_text [Text.Decoders] {shown blanks after : List UInt8}
    (hpiece : x.piece = .text shown)
    (h : (r.step schema origin x).onward = .continue r') (hopen : r'.openElements = [])
    (hblanks : ∀ b ∈ blanks ++ after, Text.isMarkupBlank b = true) :
    Idle x.charset (blanks ++ shown ++ after) := by
  rw [step, hpiece] at h
  dsimp only [orFail] at h
  refine ⟨blanks, shown, after, rfl, hblanks, .inr ?_⟩
  unfold decodeText at h
  cases hdecoded : x.charset.decode? shown with
  | none =>
    rw [hdecoded] at h
    cases h
  | some s =>
    rw [hdecoded] at h
    dsimp only at h
    cases hexpanded : expand s with
    | error fault =>
      rw [hexpanded] at h
      cases h
    | ok expanded =>
      rw [hexpanded] at h
      exact ⟨s, expanded, rfl, hexpanded, allBlank_of_characters hopen h⟩

theorem openElements_of_openElement {p : Nat} {name : String} {attributes : List WrittenAttribute}
    (h : (openElement schema r p name attributes).onward = .continue r') :
    r'.openElements ≠ [] := by
  unfold openElement at h
  split at h
  · cases h
  · split at h
    · cases h
    · split at h
      · cases h
      · dsimp only at h
        split at h <;>
        · cases h
          simp

theorem openElements_of_startTag [Text.Decoders] {content : List UInt8} {nameLength : Nat}
    (hpiece : x.piece = .startTag content nameLength)
    (h : (r.step schema origin x).onward = .continue r') : r'.openElements ≠ [] := by
  rw [step, hpiece] at h
  dsimp only [orFail] at h
  split at h
  · exact openElements_of_openElement h
  · cases h

/-! ## The end of the input -/

theorem step_nil (hready : l.Ready) (hphase : l.phase ≠ .selfClosed) (hnil : l.octets = []) :
    l.step setup = l.atEnd setup := by
  unfold Lexer.step
  split
  · next hstart => exact absurd hstart hready.begun
  · simp [Lexer.textStep, hnil, Lexer.atEnd, Lexer.advance]
  · simp [Lexer.markupStep, hnil]
  · next hself => exact absurd hself hphase

theorem Ends.ended [Text.Decoders] (h : Ends schema origin setup r l) (hready : l.Ready)
    (hphase : l.phase ≠ .selfClosed) (hnil : l.octets = []) :
    r.openElements = [] ∧ r.seenRoot = true := by
  cases h with
  | done _ hopen hseen => exact ⟨hopen, hseen⟩
  | token htoken _ _ =>
    rw [step_nil hready hphase hnil] at htoken
    cases htoken

/-- The bytes that are left: up to a last `>`, then text that says nothing, and perhaps one `<` that
nothing follows. -/
structure RoundsOff [Text.Decoders] (l : Lexer) (closed text bracket : List UInt8) : Prop where
  bytes : l.bytes = closed ++ text ++ bracket
  ends : closed = [] ∨ closed.getLast? = some 62
  markup : l.phase = .markup → closed = [] → l.bytes = []
  unmarked : 60 ∉ text
  bare : bracket = [] ∨ bracket = [60]
  idle : l.refinable = false → Idle l.charset text

theorem roundsOff_done [Text.Decoders] {p : Nat} (hready : l.Ready)
    (h : l.step setup = .done p none) :
    ∃ closed text bracket, RoundsOff l closed text bracket := by
  rcases Lexer.step_done hready h with ⟨-, hnil⟩ | ⟨hphase, blanks, bracket, hbytes, hblanks, hbare⟩
  · exact ⟨[], [], [], hnil, .inl rfl, fun _ _ => hnil, by simp, .inl rfl, fun _ => .nil _⟩
  · refine ⟨[], blanks, bracket, hbytes, .inl rfl, by simp [hphase], fun h60 => ?_, hbare,
      fun _ => ⟨blanks, [], [], by simp, by simpa using hblanks, .inl rfl⟩⟩
    have := hblanks 60 h60
    simp [Text.isMarkupBlank] at this

/-- What is taken goes before what the rest rounds off, if there is a `>` in it. -/
theorem RoundsOff.after [Text.Decoders] {taken closed text bracket : List UInt8}
    (h : RoundsOff next closed text bracket) (hleaves : Lexer.Leaves l x next taken)
    (hend : (taken ++ closed).getLast? = some 62) :
    RoundsOff l (taken ++ closed) text bracket where
  bytes := by rw [hleaves.bytes, h.bytes]; simp only [List.append_assoc]
  ends := .inr hend
  markup := by
    intro _ hnil
    rw [hnil] at hend
    cases hend
  unmarked := h.unmarked
  bare := h.bare
  idle := by
    intro hsettled
    obtain ⟨hnext, hcharset⟩ := hleaves.settled hsettled
    rw [← hcharset]
    exact h.idle hnext

/-- The last text. -/
theorem roundsOff_text [Text.Decoders] {blanks shown after bracket : List UInt8}
    (hleaves : Lexer.Leaves l x next (blanks ++ shown ++ after ++ bracket))
    (hphase : l.phase = .text) (hnil : next.bytes = [])
    (hblanks : ∀ b ∈ blanks ++ after, Text.isMarkupBlank b = true) (hshown : 60 ∉ shown)
    (hbracket : bracket = [] ∨ bracket = [60])
    (hidle : Idle l.charset (blanks ++ shown ++ after)) :
    RoundsOff l [] (blanks ++ shown ++ after) bracket where
  bytes := by rw [hleaves.bytes, hnil, List.append_nil, List.nil_append]
  ends := .inl rfl
  markup := by simp [hphase]
  unmarked := by
    have hblank : ∀ b ∈ blanks ++ after, b ≠ 60 := by
      rintro b hb rfl
      have := hblanks 60 hb
      simp [Text.isMarkupBlank] at this
    simp only [List.mem_append, not_or]
    exact ⟨⟨fun h => hblank 60 (List.mem_append_left _ h) rfl, hshown⟩,
      fun h => hblank 60 (List.mem_append_right _ h) rfl⟩
  bare := hbracket
  idle := fun _ => hidle

/-- An end tag or an instruction that is cut off is not seen to end. -/
theorem not_sees_cut {taken : List UInt8} {b : UInt8} (hplaced : Placed origin l)
    (hleaves : Lexer.Leaves l x next taken) (hend : taken.getLast? = some b) (hb : b ≠ 62)
    (hoffset : next.offset = l.offset + taken.length) (hposition : x.position = next.offset) :
    origin.sees x = false := by
  rw [(hplaced.after hleaves hoffset).sees hposition hleaves.lexeme_last, hleaves.last, hend]
  simpa using hb

/-- A start tag that is cut off is seen to end only in a stream, and if its last byte is a `>`. -/
theorem sees_cutStart {before tag : List UInt8} {b : UInt8} (hplaced : Placed origin l)
    (hleaves : Lexer.Leaves l x next (before ++ tag))
    (hbefore : before.getLast?.or l.last = some 60) (hend : tag.getLast? = some b)
    (hoffset : next.offset = l.offset + before.length) (hposition : x.position = next.offset)
    (hsees : origin.sees x = true) : origin = .stream ∧ b = 62 := by
  cases origin with
  | stream =>
    have hlast : x.last = some b := by
      rw [hleaves.lexeme_last, hleaves.last, List.getLast?_append, hend]
      rfl
    rw [Origin.sees, hlast] at hsees
    exact ⟨rfl, by simpa using hsees⟩
  | text body =>
    -- The position is still the one behind the `<`.
    obtain ⟨consumed, hbody, hcount, hlast⟩ := hplaced
    have hbracket : (consumed ++ before).getLast? = some 60 := by
      rw [List.getLast?_append, ← hlast, hbefore]
    have hsplit : body.data.toList = (consumed ++ before) ++ (tag ++ next.bytes) := by
      rw [hbody, hleaves.bytes]
      simp only [List.append_assoc]
    have hlength : x.position = (consumed ++ before).length := by
      rw [hposition, hoffset, hcount, List.length_append]
    rw [sees_text hsplit hlength, hbracket] at hsees
    simp at hsees

/-- A reading that comes to the end of the document rounds it off: no tag was cut off. -/
theorem Ends.exists_roundsOff [Text.Decoders] (h : Ends schema origin setup r l) (hready : l.Ready)
    (hplaced : Placed origin l) : ∃ closed text bracket, RoundsOff l closed text bracket := by
  induction h with
  | done hdone _ _ => exact roundsOff_done hready hdone
  | @token r r' l next x htoken hcontinue hends ih =>
    obtain ⟨taken, hleaves, htakes⟩ := Lexer.step_takes hready htoken
    have hnext : next.Ready := htakes.ready hleaves
    cases htakes with
    | markup hmarkup =>
      cases hmarkup with
      | closed hend hoffset hposition _ =>
        obtain ⟨closed, text, bracket, hround⟩ := ih hnext (hplaced.after hleaves hoffset)
        refine ⟨_, _, _, hround.after hleaves ?_⟩
        rcases hround.ends with rfl | hclosed
        · rw [List.append_nil, hend]
        · rw [List.getLast?_append, hclosed, Option.some_or]
      | cut hnil hend hb hoffset hposition hpiece hphase' =>
        have hsees := sees_of_continue hpiece hcontinue
        rw [not_sees_cut hplaced hleaves hend hb hoffset hposition] at hsees
        cases hsees
      | cutStart hnil hbefore hend hpiece hoffset hposition hphase' =>
        have hsees := sees_of_continue (by rw [hpiece]; rfl) hcontinue
        obtain ⟨-, rfl⟩ := sees_cutStart hplaced hleaves hbefore hend hoffset hposition hsees
        have htext : next.phase ≠ .selfClosed := by
          rcases hphase' with hphase' | ⟨-, -, h47⟩
          · simp [hphase']
          · simp at h47
        -- The element is open, and nothing is left to close it.
        exact absurd (hends.ended hnext htext hnil).1 (openElements_of_startTag hpiece hcontinue)
    | text hphase hpiece hcharset hblanks hshown hbracket hoffset hphase' =>
      obtain ⟨closed, text, bare, hround⟩ := ih hnext (hplaced.after hleaves hoffset)
      by_cases hclosed : closed = []
      · have hnil : next.bytes = [] := hround.markup hphase' hclosed
        have hopen := (hends.ended hnext (by simp [hphase']) (List.map_eq_nil_iff.mp hnil)).1
        have hidle := idle_of_text hpiece hcontinue hopen hblanks
        rw [hleaves.lexeme_charset, hcharset] at hidle
        have hbare := hbracket.symm.imp_left And.left
        exact ⟨_, _, _, roundsOff_text hleaves hphase hnil hblanks hshown hbare hidle⟩
      · refine ⟨_, _, _, hround.after hleaves ?_⟩
        rw [List.getLast?_append, hround.ends.resolve_left hclosed, Option.some_or]
    | selfClosed hphase hoctets hoffset hphase' hposition hpiece =>
      obtain ⟨closed, text, bracket, hround⟩ := ih hnext (hplaced.after hleaves hoffset)
      have hbytes : l.bytes = next.bytes := hleaves.bytes
      refine ⟨closed, text, bracket, hbytes.trans hround.bytes, hround.ends, by simp [hphase],
        hround.unmarked, hround.bare, fun hsettled => ?_⟩
      obtain ⟨hnext', hcharset⟩ := hleaves.settled hsettled
      rw [← hcharset]
      exact hround.idle hnext'

end ScopedXml.Reading
