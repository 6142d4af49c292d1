import Mathlib
import ScopedXml.Proofs.Markup.Refining
import ScopedXml.Proofs.Reader.Accepting
import ScopedXml.Proofs.Reader.InsideTag
import ScopedXml.Proofs.Reader.Opening

/-!
# Text and bytes

The same document can be read as text, as bytes, and as bytes that are declared to be UTF-8. The
readings look for the end of a tag in different places: a text is looked at before the reported
offset, a stream keeps its last byte. `DocumentReader.reads_bytes_as_text` says that this makes no
difference, except for a start tag that the end of the input cuts off right behind a `>` in its quotes
(`DocumentReader.tells_open_quote_apart`).
-/

namespace ScopedXml

open Markup

namespace Reading

variable {schema : Schema} {setup : LexerSetup} {r r' : Reading} {l next : Lexer} {x : Lexeme}
  {body : ByteArray}

/-! ## One piece of markup -/

theorem checkDeclaration_agree (body : ByteArray) {content : List UInt8}
    (hnames : (Piece.declaration content).NamesUtf8) (p : Nat) :
    checkDeclaration .stream p content = checkDeclaration (.text body) p content := by
  unfold checkDeclaration
  cases hdeclared : Lexer.declared? "encoding" content with
  | error fault => rfl
  | ok found =>
    cases found with
    | none => rfl
    | some label =>
      have hcharset := hnames label hdeclared
      simp only [checkEncoding, hcharset]
      rfl

/-- A piece whose end both see, or neither does, is treated alike. -/
theorem step_agree [Text.Decoders]
    (hsees : x.piece.mustClose = true → Origin.sees .stream x = (Origin.text body).sees x)
    (hnames : x.piece.NamesUtf8) : r.step schema .stream x = r.step schema (.text body) x := by
  have hclosed : x.piece.mustClose = true → checkClosed .stream x = checkClosed (.text body) x := by
    intro hmust
    rw [checkClosed, checkClosed, hsees hmust]
  unfold step
  cases hx : x.piece with
  | startTag content nameLength => rw [hclosed (by rw [hx]; rfl)]
  | endTag name => rw [hclosed (by rw [hx]; rfl)]
  | declaration content =>
    rw [hx] at hnames
    rw [hclosed (by rw [hx]; rfl)]
    dsimp only
    rw [checkDeclaration_agree body hnames]
  | instruction => rw [hclosed (by rw [hx]; rfl)]
  | text content => rfl
  | cdata content => rfl
  | comment => rfl
  | doctype => rfl

/-! ## Whole documents -/

/-- Behind a piece that both readings treat alike they go on alike, if they would. -/
theorem along_token [Text.Decoders] (htoken : l.step setup = .token x next)
    (hstep : r.step schema .stream x = r.step schema (.text body) x)
    (hnext : ∀ r', (r.step schema (.text body) x).onward = .continue r' →
      along schema .stream setup r' next = along schema (.text body) setup r' next) :
    along schema .stream setup r l = along schema (.text body) setup r l := by
  cases honward : (r.step schema (.text body) x).onward with
  | stop failure =>
    rw [along_stop htoken honward, along_stop htoken (hstep ▸ honward), hstep]
  | «continue» r' =>
    rw [along_continue htoken honward, along_continue htoken (hstep ▸ honward), hstep,
      hnext r' honward]

theorem getLast?_body {taken : List UInt8} {b : UInt8} (hplaced : Placed (.text body) l)
    (hleaves : Lexer.Leaves l x next taken) (hnil : next.octets = [])
    (hlast : taken.getLast? = some b) : body.data.toList.getLast? = some b := by
  obtain ⟨consumed, hbody, -, -⟩ := hplaced
  have hrest : next.bytes = [] := List.map_eq_nil_iff.mpr hnil
  rw [hbody, hleaves.bytes, hrest, List.append_nil, List.getLast?_append, hlast, Option.some_or]

/-- A text and a stream with the same bytes are read alike, unless the text ends in a `>` within a
tag. -/
theorem along_agree [Text.Decoders] (hready : l.Ready) (hplaced : Placed (.text body) l)
    (hnames : ∀ x ∈ (l.run setup).lexemes, x.piece.NamesUtf8)
    (hend : InsideTag (along schema (.text body) setup r l).failure →
      body.data.toList.getLast? ≠ some 62) :
    along schema .stream setup r l = along schema (.text body) setup r l := by
  induction l using Lexer.run.induct setup generalizing r with
  | case1 l p fault hdone =>
    rw [along_done hdone, along_done hdone]
    rfl
  | case2 l x next htoken ih =>
    obtain ⟨taken, hleaves, htakes⟩ := Lexer.step_takes hready htoken
    rw [Lexer.run_token htoken] at hnames
    have hx : x.piece.NamesUtf8 := hnames x (List.mem_cons_self ..)
    have hlater : ∀ y ∈ (next.run setup).lexemes, y.piece.NamesUtf8 := fun y hy =>
      hnames y (List.mem_cons_of_mem _ hy)
    -- Where the offset is that of the bytes taken, both look at the same byte.
    have key : next.offset = l.offset + taken.length →
        (x.piece.mustClose = true → x.position = next.offset) →
        along schema .stream setup r l = along schema (.text body) setup r l := by
      intro hoffset hposition
      have hplaced' := hplaced.after hleaves hoffset
      refine along_token htoken (step_agree (fun hmust => ?_) hx) fun r' hcontinue => ?_
      · have hstream : Placed .stream next := trivial
        rw [hplaced'.sees (hposition hmust) hleaves.lexeme_last,
          hstream.sees (hposition hmust) hleaves.lexeme_last]
      · refine ih (htakes.ready hleaves) hplaced' hlater fun hinside => hend ?_
        rwa [along_continue htoken hcontinue]
    cases htakes with
    | markup hmarkup =>
      cases hmarkup with
      | closed _ hoffset hposition _ => exact key hoffset fun _ => hposition
      | cut _ _ _ hoffset hposition _ _ => exact key hoffset fun _ => hposition
      | cutStart hnil hbefore htag hpiece hoffset hposition hphase =>
        have hunseen : (Origin.text body).sees x = false := by
          rw [Bool.eq_false_iff]
          intro hsees
          have := (sees_cutStart hplaced hleaves hbefore htag hoffset hposition hsees).1
          cases this
        have hmust : x.piece.mustClose = true := by
          rw [hpiece]
          rfl
        cases hstream : Origin.stream.sees x with
        | false =>
          refine along_token htoken (step_agree (fun _ => hstream.trans hunseen.symm) hx) ?_
          intro r' hcontinue
          rw [sees_of_continue hmust hcontinue] at hunseen
          cases hunseen
        | true =>
          -- The last byte is a `>` within the quotes of the tag.
          have hkept : Placed .stream l := trivial
          have hlast := (sees_cutStart hkept hleaves hbefore htag hoffset hposition hstream).2
          exact absurd (getLast?_body hplaced hleaves hnil (by simp [htag, hlast]))
            (hend (insideTag_of_unseen htoken hmust hunseen))
    | text _ hpiece _ _ _ _ hoffset _ =>
      exact key hoffset fun hmust => by rw [hpiece] at hmust; cases hmust
    | selfClosed _ _ hoffset _ hposition _ => exact key hoffset fun _ => hposition

/-- A `>` that was taken and counted is seen by both. -/
theorem sees_both {taken : List UInt8} (hplaced : Placed (.text body) next)
    (hleaves : Lexer.Leaves l x next taken) (hposition : x.position = next.offset)
    (hlast : next.last = some 62) :
    (Origin.text body).sees x = true ∧ Origin.stream.sees x = true := by
  have hstream : Placed .stream next := trivial
  rw [hplaced.sees hposition hleaves.lexeme_last, hstream.sees hposition hleaves.lexeme_last, hlast]
  exact ⟨rfl, rfl⟩

/-- A piece that both see to end is treated alike: if the two readings come apart, they do so behind
it. -/
theorem along_apart_token [Text.Decoders] (htoken : l.step setup = .token x next)
    (hsees : x.piece.mustClose = true →
      (Origin.text body).sees x = true ∧ Origin.stream.sees x = true)
    (hnames : x.piece.NamesUtf8)
    (hinside : InsideTag (along schema (.text body) setup r l).failure)
    (hnext : ∀ r', InsideTag (along schema (.text body) setup r' next).failure →
      ¬ InsideTag (along schema .stream setup r' next).failure) :
    ¬ InsideTag (along schema .stream setup r l).failure := by
  have hstep : r.step schema .stream x = r.step schema (.text body) x :=
    step_agree (fun hmust => (hsees hmust).2.trans (hsees hmust).1.symm) hnames
  cases honward : (r.step schema (.text body) x).onward with
  | stop failure =>
    rw [along_stop htoken honward] at hinside
    obtain ⟨hmust, hunseen⟩ := step_insideTag honward hinside
    rw [(hsees hmust).1] at hunseen
    cases hunseen
  | «continue» r' =>
    rw [along_continue htoken honward] at hinside
    rw [along_continue htoken (hstep ▸ honward)]
    exact hnext r' hinside

/-- Behind a start tag that is taken to end with the input nothing is left, and the element is
open. -/
theorem along_cutStart [Text.Decoders] (hsetup : setup.failure = none)
    (htoken : l.step setup = .token x next)
    (hsees : Origin.stream.sees x = true) (hready : next.Ready) (hphase : next.phase ≠ .selfClosed)
    (hnil : next.octets = []) : ¬ InsideTag (along schema .stream setup r l).failure := by
  cases honward : (r.step schema .stream x).onward with
  | stop failure =>
    rw [along_stop htoken honward]
    intro hinside
    rw [(step_insideTag honward hinside).2] at hsees
    cases hsees
  | «continue» r' =>
    have hdone : next.step setup = .done next.offset none := by
      rw [step_nil hready hphase hnil, Lexer.atEnd, hsetup]
      rfl
    rw [along_continue htoken honward, along_done hdone]
    exact finish_not_insideTag schema .stream _ _

/-- If the text ends in a `>` within a tag, the stream takes that for the end of the tag. -/
theorem along_apart [Text.Decoders] (hsetup : setup.failure = none) (hready : l.Ready)
    (hplaced : Placed (.text body) l) (hself : l.phase = .selfClosed → l.last = some 62)
    (hnames : ∀ x ∈ (l.run setup).lexemes, x.piece.NamesUtf8)
    (hinside : InsideTag (along schema (.text body) setup r l).failure)
    (hend : body.data.toList.getLast? = some 62) :
    ¬ InsideTag (along schema .stream setup r l).failure := by
  induction l using Lexer.run.induct setup generalizing r with
  | case1 l p fault hdone =>
    rw [along_done hdone]
    exact finish_not_insideTag schema .stream p fault
  | case2 l x next htoken ih =>
    obtain ⟨taken, hleaves, htakes⟩ := Lexer.step_takes hready htoken
    rw [Lexer.run_token htoken] at hnames
    have hready' := htakes.ready hleaves
    have key : next.offset = l.offset + taken.length →
        (x.piece.mustClose = true → x.position = next.offset ∧ next.last = some 62) →
        (next.phase = .selfClosed → next.last = some 62) →
        ¬ InsideTag (along schema .stream setup r l).failure := by
      intro hoffset hends hself'
      have hplaced' := hplaced.after hleaves hoffset
      refine along_apart_token htoken (fun hmust => ?_) (hnames x (List.mem_cons_self ..)) hinside
        fun r' hinside' => ?_
      · exact sees_both hplaced' hleaves (hends hmust).1 (hends hmust).2
      · exact ih hready' hplaced' hself' (fun y hy => hnames y (List.mem_cons_of_mem _ hy)) hinside'
    cases htakes with
    | markup hmarkup =>
      cases hmarkup with
      | closed hclosed hoffset hposition _ =>
        have hlast : next.last = some 62 := by rw [hleaves.last, hclosed, Option.some_or]
        exact key hoffset (fun _ => ⟨hposition, hlast⟩) fun _ => hlast
      | cut hnil hcut hb _ _ _ _ =>
        rw [getLast?_body hplaced hleaves hnil hcut] at hend
        exact absurd (Option.some.inj hend) hb
      | cutStart hnil hbefore htag hpiece hoffset hposition hphase =>
        have hlast := getLast?_body hplaced hleaves hnil (by rw [List.getLast?_append, htag]; rfl)
        obtain rfl := Option.some.inj (hlast.symm.trans hend)
        have hkept : x.last = some 62 := by
          rw [hleaves.lexeme_last, hleaves.last, List.getLast?_append, htag]
          rfl
        have htext : next.phase ≠ .selfClosed := by
          rcases hphase with hphase | ⟨-, -, h47⟩
          · simp [hphase]
          · simp at h47
        refine along_cutStart hsetup htoken ?_ hready' htext hnil
        rw [Origin.sees, hkept]
        rfl
    | text _ hpiece _ _ _ _ hoffset hphase =>
      refine key hoffset (fun hmust => ?_) fun hself' => ?_
      · rw [hpiece] at hmust
        cases hmust
      · rw [hphase] at hself'
        cases hself'
    | selfClosed hphase _ hoffset hphase' hposition _ =>
      have hlast : next.last = some 62 := by rw [hleaves.last, hself hphase]; rfl
      exact key hoffset (fun _ => ⟨hposition, hlast⟩) fun _ => hlast

end Reading

/-! ## Readers -/

theorem getLast?_encode {s : String} (h : (Text.Utf8.encode s).getLast? = some 62) :
    s.toList.getLast? = some '>' := by
  rw [Text.Utf8.encode_eq] at h
  rcases List.eq_nil_or_concat s.toList with hnil | ⟨cs, c, hcs⟩
  · rw [hnil] at h
    cases h
  · rw [List.concat_eq_append] at hcs
    rw [hcs, List.flatMap_append, List.flatMap_singleton,
      List.getLast?_append_of_ne_nil _ String.utf8EncodeChar_ne_nil] at h
    have hc := (Text.Utf8.utf8EncodeChar_of_mem (List.mem_of_getLast? h) (by decide)).2
    rw [hcs, List.getLast?_append, List.getLast?_singleton, Option.some_or]
    exact congrArg some (Char.toNat_inj.mp hc)

theorem getLast?_encode_of_toList {s : String} (h : s.toList.getLast? = some '>') :
    (Text.Utf8.encode s).getLast? = some 62 := by
  obtain ⟨cs, hcs⟩ := List.getLast?_eq_some_iff.mp h
  rw [Text.Utf8.encode_eq, hcs, List.flatMap_append, List.flatMap_singleton,
    Text.Utf8.utf8EncodeChar_of_ascii (by decide), List.getLast?_append]
  rfl

namespace DocumentReader

/-- The bytes of a text, in reads that fill the buffer. -/
def bytesInput (s : String) : Input := .ofSource (.ofBytes (Text.Utf8.encode s))

section Texts

variable [Text.Decoders]

/-- Behind its start the lexer of a text is that of the stream of its bytes. -/
theorem exists_lexer (r : DocumentReader) {s : String}
    (hmark : Text.Utf8.Unmarked s) (hplain : Input.utf16Order? (Text.Utf8.encode s) = none)
    (hnames : ∀ x ∈ (lexText r.settings.trimText s).lexemes, x.piece.NamesUtf8) :
    ∃ l : Lexer, l.Ready ∧ Reading.Placed (.text s.toUTF8) l ∧ l.phase = .text ∧
      (∀ x ∈ (l.run ⟨r.settings.trimText, none⟩).lexemes, x.piece.NamesUtf8) ∧
      r.transcriptOfText s = transcriptOf r.schema (.text s.toUTF8)
        (l.run ⟨r.settings.trimText, none⟩) ∧
      transcriptOf r.schema .stream ((Supply.whole (Text.Utf8.encode s)).lex r.settings.trimText) =
        transcriptOf r.schema .stream (l.run ⟨r.settings.trimText, none⟩) := by
  let l : Lexer := ⟨.text, Octet.fill (Text.Utf8.encode s), 0, none, [], .utf8, false⟩
  have hready : l.Ready := ⟨by simp [l], by simp [l], by simp [l]⟩
  have htext : lexText r.settings.trimText s = l.run ⟨r.settings.trimText, none⟩ := by
    rw [lexText, Lexer.run_begun _ rfl, Lexer.begun_text hmark]
  rw [htext] at hnames
  have hstream : (Supply.whole (Text.Utf8.encode s)).lex r.settings.trimText =
      l.run ⟨r.settings.trimText, none⟩ := by
    rw [Supply.lex, Lexer.run_begun _ rfl, Lexer.begun_stream hmark hplain]
    exact Lexer.run_settled ⟨by simp, by simp, by simp⟩ rfl hnames
  refine ⟨l, hready, ⟨[], (bytesOf_fill _).symm, rfl, rfl⟩, rfl, hnames, ?_, by rw [hstream]⟩
  rw [transcriptOfText, withoutMark_of_unmarked hmark, htext]

/-- What a stream of plain bytes gives rise to, and what their text does. -/
theorem transcripts_agree (r : DocumentReader) {s : String}
    (hmark : Text.Utf8.Unmarked s) (hplain : Input.utf16Order? (Text.Utf8.encode s) = none)
    (hnames : ∀ x ∈ (lexText r.settings.trimText s).lexemes, x.piece.NamesUtf8)
    (hend : ¬ (Reading.InsideTag (r.transcriptOfText s).failure ∧ s.toList.getLast? = some '>')) :
    transcriptOf r.schema .stream
        ((Supply.whole (Text.Utf8.encode s)).lex r.settings.trimText) =
      r.transcriptOfText s := by
  obtain ⟨l, hready, hplaced, -, hlater, htext, hstream⟩ := exists_lexer r hmark hplain hnames
  rw [htext] at hend ⊢
  rw [hstream]
  have halong : Reading.along (r.schema.getD .empty) .stream ⟨r.settings.trimText, none⟩
      (.start r.schema.isSome) l = _ :=
    Reading.along_agree hready hplaced hlater fun hinside hlast =>
      hend ⟨hinside, getLast?_encode hlast⟩
  exact congrArg (fun t : Transcript => { t with items := .event .startDocument :: t.items }) halong

/-- The stream of a text that ends in a `>` within a tag does not end within a tag. -/
theorem transcripts_apart (r : DocumentReader) {s : String}
    (hmark : Text.Utf8.Unmarked s) (hplain : Input.utf16Order? (Text.Utf8.encode s) = none)
    (hnames : ∀ x ∈ (lexText r.settings.trimText s).lexemes, x.piece.NamesUtf8)
    (hinside : Reading.InsideTag (r.transcriptOfText s).failure)
    (hlast : s.toList.getLast? = some '>') :
    ¬ Reading.InsideTag (transcriptOf r.schema .stream
      ((Supply.whole (Text.Utf8.encode s)).lex r.settings.trimText)).failure := by
  obtain ⟨l, hready, hplaced, hphase, hlater, htext, hstream⟩ :=
    exists_lexer r hmark hplain hnames
  rw [htext] at hinside
  rw [hstream]
  exact Reading.along_apart rfl hready hplaced (fun h => by rw [hphase] at h; cases h) hlater
    hinside (getLast?_encode_of_toList hlast)

/-- Bytes that do not show UTF-16 are read as a stream. -/
theorem transcript_bytes (r : DocumentReader) {s : String}
    (hplain : Input.utf16Order? (Text.Utf8.encode s) = none) (hsize : 4 ≤ r.settings.bufferSize)
    (hlex : ((ByteSource.ofBytes (Text.Utf8.encode s)).supply r.settings.bufferSize).lex
        r.settings.trimText = (Supply.whole (Text.Utf8.encode s)).lex r.settings.trimText) :
    r.transcript (bytesInput s) = .ok (transcriptOf r.schema .stream
      ((Supply.whole (Text.Utf8.encode s)).lex r.settings.trimText)) := by
  have hopened := Input.opened_ofBytes (Text.Utf8.encode s) r.settings.bufferSize
  rw [Input.sniffed_ofBytes (Text.Utf8.encode s) hsize, hplain] at hopened
  refine (transcript_stream hopened).trans ?_
  rw [transcriptOfStream, hlex]

/-- If the text ends in a `>` within a tag, listeners that accept everything tell its bytes from
it. -/
theorem not_readsAlike_bytes (r : DocumentReader) {s : String}
    (hmark : Text.Utf8.Unmarked s)
    (hplain : Input.utf16Order? (Text.Utf8.encode s) = none) (hsize : 4 ≤ r.settings.bufferSize)
    (hnames : ∀ x ∈ (lexText r.settings.trimText s).lexemes, x.piece.NamesUtf8)
    (hlex : ((ByteSource.ofBytes (Text.Utf8.encode s)).supply r.settings.bufferSize).lex
        r.settings.trimText = (Supply.whole (Text.Utf8.encode s)).lex r.settings.trimText)
    (hinside : Reading.InsideTag (r.transcriptOfText s).failure)
    (hlast : s.toList.getLast? = some '>') : ¬ r.ReadsAlike (bytesInput s) r (.ofText s) := by
  intro halike
  have hanswer := congrArg Prod.fst (halike Unit Unit .accepting .accepting () ()).1
  have htext : r.transcript (.ofText s) = .ok (r.transcriptOfText s) := rfl
  rw [parse_of_transcript (transcript_bytes r hplain hsize hlex), parse_of_transcript htext]
    at hanswer
  obtain ⟨p, hp⟩ := hinside
  have hfailed : ((r.transcriptOfText s).deliver .accepting .accepting () ()).1 = _ :=
    (Transcript.deliver_accepting_malformed fun d => transcriptOf_fatal).mpr hp
  rw [hfailed] at hanswer
  have hstream := (Transcript.deliver_accepting_malformed fun d => transcriptOf_fatal).mp hanswer
  exact transcripts_apart r hmark hplain hnames ⟨p, hp⟩ hlast ⟨p, hstream⟩

/-- **Agreement.** For a text without a byte order mark or the look of UTF-16, in which no XML
declaration names another encoding, the bytes that are declared to be UTF-8 are read like the text. So
are the plain bytes, unless the reading of the text ends within a tag, at the end of a text whose last
character is a `>`; then they never are. -/
theorem reads_bytes_as_text (r : DocumentReader) {s : String}
    (hmark : Text.Utf8.Unmarked s)
    (hplain : Input.utf16Order? (Text.Utf8.encode s) = none) (hsize : 4 ≤ r.settings.bufferSize)
    (hnames : ∀ x ∈ (lexText r.settings.trimText s).lexemes, x.piece.NamesUtf8)
    (hlex : ((ByteSource.ofBytes (Text.Utf8.encode s)).supply r.settings.bufferSize).lex
        r.settings.trimText = (Supply.whole (Text.Utf8.encode s)).lex r.settings.trimText) :
    r.ReadsAlike ((bytesInput s).withEncoding "UTF-8") r (.ofText s) ∧
      (r.ReadsAlike (bytesInput s) r (.ofText s) ↔
        ¬ (Reading.InsideTag (r.transcriptOfText s).failure ∧ s.toList.getLast? = some '>')) := by
  refine ⟨readsAlike_of_transcript ?declared, fun halike hend => ?apart, fun hend =>
    readsAlike_of_transcript ?plain⟩
  case declared =>
    have hlabel : Input.charset "UTF-8" = .ok .utf8 := rfl
    have hopened := Input.opened_declared hlabel (ByteSource.ofBytes_nonempty (Text.Utf8.encode s))
      r.settings.bufferSize
    rw [withoutMark_of_unmarked hmark] at hopened
    exact transcript_text hopened
  case apart =>
    exact not_readsAlike_bytes r hmark hplain hsize hnames hlex hend.1 hend.2 halike
  case plain =>
    rw [transcript_bytes r hplain hsize hlex, transcripts_agree r hmark hplain hnames hend]
    rfl

end Texts

theorem reads_declared_bytes_as_text :
    (⟨none, .standard⟩ : DocumentReader).ReadsAlike
        ((bytesInput "<?xml encoding='utf8'?><a/>").withEncoding "UTF-8")
        ⟨none, .standard⟩ (.ofText "<?xml encoding='utf8'?><a/>") ∧
      (⟨none, .standard⟩ : DocumentReader).ReadsAlike
        (bytesInput "<?xml encoding='utf8'?><a/>")
        ⟨none, .standard⟩ (.ofText "<?xml encoding='utf8'?><a/>") := by
  have hnames : ∀ x ∈ (lexText false "<?xml encoding='utf8'?><a/>").lexemes,
      x.piece.NamesUtf8 := by
    have hpieces : (lexText false "<?xml encoding='utf8'?><a/>").lexemes.map
        (·.piece) = [.declaration (Text.Utf8.encode "xml encoding='utf8'"),
          .startTag (Text.Utf8.encode "a") 1, .endTag (Text.Utf8.encode "a")] := by cbv
    intro x hx
    have hpiece : x.piece ∈ _ := List.mem_map_of_mem hx
    rw [hpieces] at hpiece
    simp only [List.mem_cons, List.not_mem_nil, or_false] at hpiece
    rcases hpiece with hpiece | hpiece | hpiece
    · rw [hpiece]
      intro label hlabel
      have hdeclared : Lexer.declared? "encoding"
          (Text.Utf8.encode "xml encoding='utf8'") =
            .ok (some (Text.Utf8.encode "utf8")) := by cbv
      rw [hdeclared] at hlabel
      cases hlabel
      decide +kernel
    · rw [hpiece]
      trivial
    · rw [hpiece]
      trivial
  have hmark : Text.Utf8.Unmarked "<?xml encoding='utf8'?><a/>" := by decide
  have hfits : (Text.Utf8.encode "<?xml encoding='utf8'?><a/>").length ≤ 65536 := by decide
  have halike := reads_bytes_as_text ⟨none, .standard⟩ hmark (by decide) (by decide) hnames
    (congrArg (·.lex false) (ByteSource.supply_ofBytes hfits))
  refine ⟨halike.1, halike.2.mpr ?_⟩
  rintro ⟨⟨p, hp⟩, -⟩
  have hnone : ((⟨none, .standard⟩ : DocumentReader).transcriptOfText
    "<?xml encoding='utf8'?><a/>").failure = none := by decide +kernel
  rw [hnone] at hp
  cases hp

/-- A start tag that is cut off right behind a `>` within its quotes is told as an element when it is
read as bytes, and as text it is not. -/
theorem tells_open_quote_apart :
    Text.Utf8.Unmarked "<a'>" ∧ Input.utf16Order? (Text.Utf8.encode "<a'>") = none ∧
      (∀ x ∈ (lexText false "<a'>").lexemes, x.piece.NamesUtf8) ∧
      ((ByteSource.ofBytes (Text.Utf8.encode "<a'>")).supply 65536).lex false =
        (Supply.whole (Text.Utf8.encode "<a'>")).lex false ∧
      ¬ (⟨none, .standard⟩ : DocumentReader).ReadsAlike (bytesInput "<a'>")
        ⟨none, .standard⟩ (.ofText "<a'>") := by
  have hmark : Text.Utf8.Unmarked "<a'>" := by decide
  have hnames : ∀ x ∈ (lexText false "<a'>").lexemes, x.piece.NamesUtf8 := by
    have hpieces : (lexText false "<a'>").lexemes.map (·.piece) =
        [.startTag (Text.Utf8.encode "a'>") 3] := by cbv
    intro x hx
    have hpiece : x.piece ∈ _ := List.mem_map_of_mem hx
    rw [hpieces, List.mem_singleton] at hpiece
    rw [hpiece]
    trivial
  have hfits : (Text.Utf8.encode "<a'>").length ≤ 65536 := by decide
  have hlex := congrArg (·.lex false) (ByteSource.supply_ofBytes hfits)
  have hinside : Reading.InsideTag
      ((⟨none, .standard⟩ : DocumentReader).transcriptOfText "<a'>").failure := ⟨1, by cbv⟩
  exact ⟨hmark, by cbv, hnames, hlex,
    not_readsAlike_bytes ⟨none, .standard⟩ hmark (by cbv) (by decide) hnames hlex hinside
      (by decide)⟩

end DocumentReader

end ScopedXml
