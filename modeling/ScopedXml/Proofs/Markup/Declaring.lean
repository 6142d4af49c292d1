import ScopedXml.Markup.Lexer

/-!
# Encodings behind a piece of markup

The encoding in which a lexer goes on is the one it had, or one that the piece of markup behind it
declares (`Lexer.step_charset`).
-/

namespace ScopedXml.Markup

open Text

/-- The encoding that a piece of markup declares, if it is known. -/
def Piece.declared? : Piece → Option Charset
  | .declaration content =>
    match Lexer.declared? "encoding" content with
    | .ok (some label) => Charset.ofLabelBytes? label
    | _ => none
  | _ => none

namespace Lexer

/-- Behind a step the encoding is still `charset`, or the piece of markup declares it. -/
def Step.Keeps (charset : Charset) (s : Step) : Prop :=
  ∀ x next, s = .token x next → next.charset = charset ∨ x.piece.declared? = some next.charset

variable {setup : LexerSetup} {l next : Lexer} {x : Lexeme}

theorem keeps_done (charset : Charset) (p : Nat) (fault : Option LexFault) :
    Step.Keeps charset (.done p fault) := by
  intro x next h
  cases h

theorem keeps_emit (l : Lexer) (piece : Piece) (p : Nat) :
    Step.Keeps l.charset (l.emit piece p) := by
  intro x next h
  cases h
  exact .inl rfl

theorem bangStep_keeps (setup : LexerSetup) (l : Lexer) (rest : List Octet) :
    Step.Keeps l.charset (l.bangStep setup rest) := by
  unfold bangStep
  split
  · exact keeps_done _ _ _
  · split
    · exact keeps_done _ _ _
    · split
      · exact keeps_done _ _ _
      · dsimp only
        split
        · exact keeps_emit _ _ _
        · exact keeps_done _ _ _

theorem endStep_keeps (setup : LexerSetup) (l : Lexer) :
    Step.Keeps l.charset (l.endStep setup) := by
  unfold endStep
  dsimp only
  split
  · exact keeps_done _ _ _
  · split
    · exact keeps_done _ _ _
    · split
      · exact keeps_emit _ _ _
      · exact keeps_done _ _ _

theorem startStep_keeps (setup : LexerSetup) (l : Lexer) :
    Step.Keeps l.charset (l.startStep setup) := by
  unfold startStep
  dsimp only
  split
  · exact keeps_done _ _ _
  · split <;> exact keeps_emit _ _ _

theorem charset_refine (l : Lexer) (content : List UInt8) :
    (l.refine content).charset = l.charset ∨
      (Piece.declaration content).declared? = some (l.refine content).charset := by
  unfold refine
  split
  · split
    · next label hlabel =>
      split
      · next charset hknown => exact .inr (by simp [Piece.declared?, hlabel, hknown])
      · exact .inl rfl
    · exact .inl rfl
  · exact .inl rfl

theorem questionStep_keeps (setup : LexerSetup) (l : Lexer) :
    Step.Keeps l.charset (l.questionStep setup) := by
  unfold questionStep
  dsimp only
  split
  · exact keeps_done _ _ _
  · split
    · split
      · intro x next h
        cases h
        exact charset_refine _ _
      · exact keeps_emit _ _ _
    · exact keeps_done _ _ _

theorem markupStep_keeps (setup : LexerSetup) (l : Lexer) :
    Step.Keeps l.charset (l.markupStep setup) := by
  unfold markupStep
  split
  · exact keeps_done _ _ _
  · split
    · exact bangStep_keeps setup l _
    · split
      · exact endStep_keeps setup l
      · split
        · exact questionStep_keeps setup l
        · exact startStep_keeps setup l

theorem textStep_keeps (setup : LexerSetup) (l : Lexer) :
    Step.Keeps l.charset (l.textStep setup) := by
  unfold textStep
  dsimp only
  generalize (if setup.trimText = true then
    l.octets.takeWhile (isMarkupBlank ·.byte) else []) = blanks
  split
  · exact keeps_done _ _ _
  · split
    · exact markupStep_keeps setup _
    · split
      · exact keeps_done _ _ _
      · exact keeps_emit _ _ _

theorem step_charset (hbegun : l.phase ≠ .start) (h : l.step setup = .token x next) :
    next.charset = l.charset ∨ x.piece.declared? = some next.charset := by
  have hkeeps : Step.Keeps l.charset (l.step setup) := by
    unfold step
    split
    · next hphase => exact absurd hphase hbegun
    · exact textStep_keeps setup l
    · exact markupStep_keeps setup l
    · split
      · exact keeps_done _ _ _
      · exact keeps_emit _ _ _
  exact hkeeps x next h

end Lexer

end ScopedXml.Markup
