import ScopedXml.Proofs.Markup.Taking
import ScopedXml.Proofs.Text.Utf8

/-!
# Running a lexer

What a lexer finds is the first piece and what is found behind it (`run_token`, `run_done`). A lexer
at the very start only leaves out a byte order mark and is then in text (`run_begun`).
-/

namespace ScopedXml.Markup.Lexer

variable {setup : LexerSetup} {l next : Lexer} {x : Lexeme}

theorem run_done {p : Nat} {fault : Option LexFault} (h : l.step setup = .done p fault) :
    l.run setup = ⟨[], p, fault⟩ := by
  rw [run]
  split
  · next h' =>
    rw [h] at h'
    cases h'
    rfl
  · next h' =>
    rw [h] at h'
    cases h'

theorem run_token (h : l.step setup = .token x next) :
    l.run setup = { next.run setup with lexemes := x :: (next.run setup).lexemes } := by
  rw [run]
  split
  · next h' =>
    rw [h] at h'
    cases h'
  · next h' =>
    rw [h] at h'
    cases h'
    rfl

/-! ## The start -/

/-- A lexer at the very start, once it has looked for a byte order mark. -/
def begun (l : Lexer) : Lexer := { l.skipMark with phase := .text }

theorem step_begun (setup : LexerSetup) (h : l.phase = .start) :
    l.step setup = l.begun.step setup := by
  unfold step
  rw [h]
  rfl

theorem run_begun (setup : LexerSetup) (h : l.phase = .start) :
    l.run setup = l.begun.run setup := by
  rw [run, run, step_begun setup h]

theorem begun_ready (l : Lexer) : l.begun.Ready :=
  ⟨by simp [begun], by simp [begun], by simp [begun]⟩

/-- What is left out at the start is a byte order mark, if there is one. -/
theorem bytes_begun (l : Lexer) : ∃ mark, l.bytes = mark ++ l.begun.bytes ∧ 60 ∉ mark := by
  unfold begun skipMark
  dsimp only
  split
  · next charset rest hmark =>
    obtain ⟨mark, hfill, hmarks⟩ := Text.Utf8.ofMark?_eq_some hmark
    obtain ⟨more, hmore⟩ := firstFill_prefix ⟨l.octets, none⟩
    refine ⟨mark, ?_, by rcases hmarks with ⟨rfl, -⟩ | ⟨rfl, -⟩ | ⟨rfl, -⟩ <;> simp⟩
    have hlength : (Supply.firstFill ⟨l.octets, none⟩).length - rest.length = mark.length := by
      rw [hfill, List.length_append, Nat.add_sub_cancel]
    have hbytes : bytesOf l.octets = mark ++ (rest ++ more) := by
      rw [← List.append_assoc, ← hfill, hmore]
    have hrest : bytesOf (l.octets.drop mark.length) = rest ++ more := by
      rw [bytesOf_drop, hbytes, List.drop_left]
    rw [hlength]
    exact hbytes.trans (congrArg (mark ++ ·) hrest.symm)
  · exact ⟨[], rfl, by simp⟩

end ScopedXml.Markup.Lexer
