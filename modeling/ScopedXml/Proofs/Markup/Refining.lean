import ScopedXml.Proofs.Markup.Running
import ScopedXml.Proofs.Text.Labels

/-!
# Declared encodings

An XML declaration can change the encoding in which a lexer goes on. If all declarations that are
found name UTF-8, the lexer might as well have had its encoding settled beforehand (`run_settled`).
-/

namespace ScopedXml.Markup

open Text

/-! ## Labels -/

/-- A declaration that names no encoding but UTF-8. -/
def Piece.NamesUtf8 : Piece → Prop
  | .declaration content => ∀ label, Lexer.declared? "encoding" content = .ok (some label) →
      Input.charset (Utf8.decodeLossy label) = .ok .utf8
  | _ => True

namespace Lexer

variable {setup : LexerSetup} {l next : Lexer} {x : Lexeme}

/-! ## Settled lexers -/

/-- The lexer whose encoding no declaration changes any more. -/
def settled (l : Lexer) : Lexer := { l with refinable := false }

def Step.settled : Step → Step
  | .token x next => .token x next.settled
  | .done p fault => .done p fault

theorem bangStep_settled (setup : LexerSetup) (l : Lexer) (rest : List Octet) :
    l.settled.bangStep setup rest = (l.bangStep setup rest).settled := by
  unfold bangStep
  split
  · rfl
  · split
    · rfl
    · split
      · rfl
      · next content left htake =>
        dsimp only
        cases Bang.piece _ content <;> rfl

theorem endStep_settled (setup : LexerSetup) (l : Lexer) :
    l.settled.endStep setup = (l.endStep setup).settled := by
  unfold endStep
  dsimp only [settled, advance]
  split
  · rfl
  · split
    · rfl
    · split <;> rfl

theorem startStep_settled (setup : LexerSetup) (l : Lexer) :
    l.settled.startStep setup = (l.startStep setup).settled := by
  unfold startStep
  dsimp only [settled, advance]
  split
  · rfl
  · split <;> rfl

/-- A declaration that names UTF-8 leaves a lexer in UTF-8 as it is. -/
theorem refine_eq_settled (hcharset : l.charset = .utf8) {content : List UInt8}
    (hnames : (Piece.declaration content).NamesUtf8) :
    (l.refine content).charset = .utf8 ∧ (l.refine content).settled = l.settled := by
  unfold refine
  split
  · split
    · next label hlabel =>
      split
      · next charset hknown =>
        have hutf8 := Input.charset_of_ofLabelBytes? hknown
        rw [hnames label hlabel] at hutf8
        cases hutf8
        exact ⟨rfl, by simp [settled, hcharset]⟩
      · exact ⟨hcharset, rfl⟩
    · exact ⟨hcharset, rfl⟩
  · exact ⟨hcharset, rfl⟩

theorem emit_refine_settled (hcharset : l.charset = .utf8) {content : List UInt8}
    (hnames : (Piece.declaration content).NamesUtf8) (p : Nat) :
    l.settled.emit (.declaration content) p =
      ((l.refine content).emit (.declaration content) p).settled := by
  obtain ⟨hutf8, hsettled⟩ := refine_eq_settled hcharset hnames
  obtain ⟨-, -, -, hlast, -⟩ := refine_eq l content
  have hcharset' : l.settled.charset = .utf8 := hcharset
  simp only [emit, Step.settled, hutf8, hsettled, hlast, hcharset']
  rfl

theorem questionStep_settled (hcharset : l.charset = .utf8)
    (hnames : ∀ x next, l.settled.questionStep setup = .token x next → x.piece.NamesUtf8) :
    l.settled.questionStep setup = (l.questionStep setup).settled := by
  unfold questionStep at hnames ⊢
  dsimp only [settled, advance] at hnames ⊢
  split
  · rfl
  · next hfound =>
    rw [if_neg hfound] at hnames
    split
    · next hlong =>
      rw [if_pos hlong] at hnames
      split
      · next hxml =>
        rw [if_pos hxml] at hnames
        exact emit_refine_settled (l := ⟨.text, _, _, _, l.openNames, l.charset, l.refinable⟩)
          hcharset (hnames _ _ rfl) _
      · rfl
    · rfl

theorem markupStep_settled (hcharset : l.charset = .utf8)
    (hnames : ∀ x next, l.settled.markupStep setup = .token x next → x.piece.NamesUtf8) :
    l.settled.markupStep setup = (l.markupStep setup).settled := by
  unfold markupStep at hnames ⊢
  have hoctets : l.settled.octets = l.octets := rfl
  rw [hoctets] at hnames ⊢
  cases h : l.octets with
  | nil => rfl
  | cons o rest =>
    rw [h] at hnames
    dsimp only at hnames ⊢
    split
    · exact bangStep_settled setup l rest
    · split
      · exact endStep_settled setup l
      · split
        · next hbang hslash hquestion =>
          rw [if_neg hbang, if_neg hslash, if_pos hquestion] at hnames
          exact questionStep_settled hcharset hnames
        · exact startStep_settled setup l

theorem textStep_settled (hcharset : l.charset = .utf8)
    (hnames : ∀ x next, l.settled.textStep setup = .token x next → x.piece.NamesUtf8) :
    l.settled.textStep setup = (l.textStep setup).settled := by
  unfold textStep at hnames ⊢
  have hoctets : l.settled.octets = l.octets := rfl
  rw [hoctets] at hnames ⊢
  dsimp only at hnames ⊢
  generalize (if setup.trimText = true then
    l.octets.takeWhile (isMarkupBlank ·.byte) else []) = blanks at hnames ⊢
  generalize hinner : l.advance blanks.length (l.lastOf (blanks.map (·.byte)))
    (l.octets.drop blanks.length) = inner
  have hsettled : l.settled.advance blanks.length (l.settled.lastOf (blanks.map (·.byte)))
      (l.octets.drop blanks.length) = inner.settled := by
    rw [← hinner]
    rfl
  have hutf8 : inner.charset = .utf8 := by
    rw [← hinner]
    exact hcharset
  have hinnerOctets : inner.settled.octets = inner.octets := rfl
  rw [hsettled, hinnerOctets] at hnames ⊢
  cases h : inner.octets with
  | nil => rfl
  | cons o rest =>
    rw [h] at hnames
    dsimp only at hnames ⊢
    split
    · next hbracket =>
      rw [if_pos hbracket] at hnames
      exact markupStep_settled (l := inner.advance 1 (some 60) rest) hutf8 hnames
    · split <;> rfl

theorem step_settled (hcharset : l.charset = .utf8) (hstart : l.phase ≠ .start)
    (hnames : ∀ x next, l.settled.step setup = .token x next → x.piece.NamesUtf8) :
    l.settled.step setup = (l.step setup).settled := by
  unfold step at hnames ⊢
  have hphase : l.settled.phase = l.phase := rfl
  rw [hphase] at hnames ⊢
  cases h : l.phase with
  | start => exact absurd h hstart
  | text =>
    rw [h] at hnames
    exact textStep_settled hcharset hnames
  | markup =>
    rw [h] at hnames
    exact markupStep_settled hcharset hnames
  | selfClosed =>
    dsimp only [settled]
    split <;> rfl

theorem run_settled (hready : l.Ready) (hcharset : l.charset = .utf8)
    (hnames : ∀ x ∈ (l.settled.run setup).lexemes, x.piece.NamesUtf8) :
    l.run setup = l.settled.run setup := by
  have hstep : ∀ {l : Lexer} (_ : ∀ x ∈ (l.settled.run setup).lexemes, x.piece.NamesUtf8) x next,
      l.settled.step setup = .token x next → x.piece.NamesUtf8 := by
    intro l hnames x next htoken
    apply hnames
    rw [run_token htoken]
    exact List.mem_cons_self ..
  induction l using Lexer.run.induct setup with
  | case1 l p fault hdone =>
    have hsettled := step_settled hcharset hready.begun (hstep hnames)
    rw [hdone] at hsettled
    rw [run_done hdone, run_done hsettled]
  | case2 l x next htoken ih =>
    have hsettled := step_settled hcharset hready.begun (hstep hnames)
    rw [htoken] at hsettled
    have hready' : next.Ready := by
      obtain ⟨taken, hleaves, htakes⟩ := step_takes hready htoken
      exact htakes.ready hleaves
    have hcharset' : next.charset = .utf8 := by
      have hready'' : l.settled.Ready := ⟨hready.begun, hready.bracket, hready.named⟩
      obtain ⟨taken, hleaves, -⟩ := step_takes hready'' hsettled
      exact (hleaves.settled rfl).2.trans hcharset
    rw [run_token hsettled] at hnames ⊢
    rw [run_token htoken, ih hready' hcharset' fun y hy => hnames y (List.mem_cons_of_mem _ hy)]

end Lexer

end ScopedXml.Markup
