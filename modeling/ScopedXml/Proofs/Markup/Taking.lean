import Mathlib.Data.List.Basic
import ScopedXml.Markup.Lexer
import ScopedXml.Proofs.Markup.Fills

/-!
# What the lexer takes

A step of the lexer takes some bytes and leaves the rest. `Lexer.Takes` lists what it can take with
one piece of markup: a piece up to its `>`, text up to a `<` or to the end of the input, or a tag
that the end of the input cuts off. `Lexer.step_takes` and `Lexer.step_done` say that this is all.
-/

namespace ScopedXml.Markup

open Text

/-! ## Taking bytes -/

theorem takeUntil_found {stop : UInt8} {octets : List Octet}
    (h : (takeUntil stop octets).found = true) :
    bytesOf octets =
      (takeUntil stop octets).content ++ stop :: bytesOf (takeUntil stop octets).rest := by
  induction octets with
  | nil => cases h
  | cons o rest ih =>
    by_cases hstop : o.byte = stop
    · simp [takeUntil, hstop]
    · simp only [takeUntil, if_neg hstop] at h ⊢
      simp [ih h]

theorem takeUntil_missed {stop : UInt8} {octets : List Octet}
    (h : (takeUntil stop octets).found = false) :
    bytesOf octets = (takeUntil stop octets).content ∧ (takeUntil stop octets).rest = [] := by
  induction octets with
  | nil => exact ⟨rfl, rfl⟩
  | cons o rest ih =>
    by_cases hstop : o.byte = stop
    · simp [takeUntil, hstop] at h
    · simp only [takeUntil, if_neg hstop] at h ⊢
      simp [ih h]

/-- All bytes are taken, closed or not, or left. -/
theorem takeUntil_cases (stop : UInt8) (octets : List Octet) :
    ∃ closing, bytesOf octets =
        (takeUntil stop octets).content ++ closing ++ bytesOf (takeUntil stop octets).rest ∧
      (takeUntil stop octets).size = ((takeUntil stop octets).content ++ closing).length ∧
      ((takeUntil stop octets).found = true ∧ closing = [stop] ∨
        (takeUntil stop octets).found = false ∧ closing = [] ∧
          (takeUntil stop octets).rest = []) := by
  cases hfound : (takeUntil stop octets).found with
  | true =>
    refine ⟨[stop], ?_, by simp [Taken.size, hfound], .inl ⟨rfl, rfl⟩⟩
    simpa using takeUntil_found hfound
  | false =>
    obtain ⟨hbytes, hrest⟩ := takeUntil_missed hfound
    exact ⟨[], by simp [hbytes, hrest], by simp [Taken.size, hfound], .inr ⟨rfl, rfl, hrest⟩⟩

theorem notMem_content_takeUntil (stop : UInt8) (octets : List Octet) :
    stop ∉ (takeUntil stop octets).content := by
  induction octets with
  | nil => simp [takeUntil]
  | cons o rest ih =>
    by_cases hstop : o.byte = stop
    · simp [takeUntil, hstop]
    · simp only [takeUntil, if_neg hstop, List.mem_cons, not_or]
      exact ⟨fun h => hstop h.symm, ih⟩

theorem takeTag_found {quote : Option UInt8} {octets : List Octet}
    (h : (takeTag quote octets).found = true) :
    bytesOf octets =
      (takeTag quote octets).content ++ 62 :: bytesOf (takeTag quote octets).rest := by
  induction octets generalizing quote with
  | nil => cases h
  | cons o rest ih =>
    by_cases hend : quote = none ∧ o.byte = 62
    · simp [takeTag, hend]
    · simp only [takeTag, if_neg hend] at h ⊢
      simp [ih h]

theorem takeTag_missed {quote : Option UInt8} {octets : List Octet}
    (h : (takeTag quote octets).found = false) :
    bytesOf octets = (takeTag quote octets).content ∧ (takeTag quote octets).rest = [] := by
  induction octets generalizing quote with
  | nil => exact ⟨rfl, rfl⟩
  | cons o rest ih =>
    by_cases hend : quote = none ∧ o.byte = 62
    · simp [takeTag, hend] at h
    · simp only [takeTag, if_neg hend] at h ⊢
      simp [ih h]

theorem rest_takeUntil_suffix (stop : UInt8) (octets : List Octet) :
    (takeUntil stop octets).rest <:+ octets := by
  induction octets with
  | nil => exact List.suffix_refl []
  | cons o rest ih =>
    simp only [takeUntil]
    split
    · exact List.suffix_cons o rest
    · exact ih.trans (List.suffix_cons o rest)

theorem rest_takeTag_suffix (quote : Option UInt8) (octets : List Octet) :
    (takeTag quote octets).rest <:+ octets := by
  induction octets generalizing quote with
  | nil => exact List.suffix_refl []
  | cons o rest ih =>
    simp only [takeTag]
    split
    · exact List.suffix_cons o rest
    · exact (ih _).trans (List.suffix_cons o rest)

theorem rest_takeBang_suffix {kind : Bang} {rev content : List UInt8} {depth : Nat}
    {octets rest : List Octet} (h : takeBang kind rev depth octets = some (content, rest)) :
    rest <:+ octets := by
  induction octets generalizing rev depth with
  | nil => simp [takeBang] at h
  | cons o tail ih =>
    simp only [takeBang] at h
    by_cases hc : o.byte = 62 ∧ kind.closes rev (if o.fresh then 0 else depth) = true
    · rw [if_pos hc] at h
      cases h
      exact List.suffix_cons o _
    · rw [if_neg hc] at h
      exact (ih h).trans (List.suffix_cons o tail)

theorem takeBang_found {kind : Bang} {rev content : List UInt8} {depth : Nat}
    {octets rest : List Octet} (h : takeBang kind rev depth octets = some (content, rest)) :
    rev.reverse ++ bytesOf octets = content ++ 62 :: bytesOf rest := by
  induction octets generalizing rev depth with
  | nil => simp [takeBang] at h
  | cons o tail ih =>
    simp only [takeBang] at h
    by_cases hc : o.byte = 62 ∧ kind.closes rev (if o.fresh then 0 else depth) = true
    · rw [if_pos hc] at h
      cases h
      simp [hc.1]
    · rw [if_neg hc] at h
      simpa using ih h

/-- Pieces that have to be closed by a `>` before they count. -/
def Piece.mustClose : Piece → Bool
  | .startTag .. => true
  | .endTag _ => true
  | .declaration _ => true
  | .instruction => true
  | .text _ => false
  | .cdata _ => false
  | .comment => false
  | .doctype => false

namespace Lexer

/-! ## Steps -/

/-- The bytes that are still to be read. -/
def bytes (l : Lexer) : List UInt8 := bytesOf l.octets

/-- A lexer takes some bytes with one piece of markup, and leaves the rest. -/
structure Leaves (l : Lexer) (x : Lexeme) (next : Lexer) (taken : List UInt8) : Prop where
  bytes : l.bytes = taken ++ next.bytes
  octets : next.octets <:+ l.octets
  last : next.last = taken.getLast?.or l.last
  lexeme_last : x.last = next.last
  lexeme_charset : x.charset = next.charset
  settled : l.refinable = false → next.refinable = false ∧ next.charset = l.charset

/-- The ways in which markup is taken, behind its `<` or with it. -/
inductive TakesMarkup (l : Lexer) (x : Lexeme) (next : Lexer) : List UInt8 → Prop
  /-- All up to a `>`. -/
  | closed {taken : List UInt8} : taken.getLast? = some 62 →
    next.offset = l.offset + taken.length → x.position = next.offset →
    next.phase = .text ∨ next.phase = .selfClosed ∧ next.openNames ≠ [] →
    TakesMarkup l x next taken
  /-- An end tag or an instruction that the end of the input cuts off. -/
  | cut {taken : List UInt8} {b : UInt8} : next.octets = [] → taken.getLast? = some b → b ≠ 62 →
    next.offset = l.offset + taken.length → x.position = next.offset →
    x.piece.mustClose = true → next.phase = .text → TakesMarkup l x next taken
  /-- A start tag that the end of the input cuts off. Its offset stays behind its `<`. -/
  | cutStart {before tag content : List UInt8} {nameLength : Nat} {b : UInt8} : next.octets = [] →
    before.getLast?.or l.last = some 60 → tag.getLast? = some b →
    x.piece = .startTag content nameLength → next.offset = l.offset + before.length →
    x.position = next.offset →
    next.phase = .text ∨ next.phase = .selfClosed ∧ next.openNames ≠ [] ∧ b = 47 →
    TakesMarkup l x next (before ++ tag)

/-- The ways in which bytes are taken. -/
inductive Takes (l : Lexer) (x : Lexeme) (next : Lexer) : List UInt8 → Prop
  | markup {taken : List UInt8} : TakesMarkup l x next taken → Takes l x next taken
  /-- Text up to a `<`, or up to the end of the input. -/
  | text {blanks shown after bracket : List UInt8} : l.phase = .text → x.piece = .text shown →
    next.charset = l.charset → (∀ b ∈ blanks ++ after, isMarkupBlank b = true) → 60 ∉ shown →
    bracket = [60] ∨ bracket = [] ∧ next.octets = [] →
    next.offset = l.offset + (blanks ++ shown ++ after ++ bracket).length →
    next.phase = .markup → Takes l x next (blanks ++ shown ++ after ++ bracket)
  /-- The end of a tag that closed itself. -/
  | selfClosed : l.phase = .selfClosed → next.octets = l.octets → next.offset = l.offset →
    next.phase = .text → x.position = next.offset → x.piece.mustClose = true → Takes l x next []

section

variable {setup : LexerSetup} {l next : Lexer} {x : Lexeme} {rest : List Octet}

theorem bytes_advance (l : Lexer) (taken : Nat) (last : Option UInt8) (rest : List Octet) :
    (l.advance taken last rest).bytes = bytesOf rest := rfl

theorem lastOf_eq (l : Lexer) (content : List UInt8) :
    l.lastOf content = content.getLast?.or l.last := by
  unfold lastOf
  cases content.getLast? <;> rfl

theorem bangStep_takes {o : Octet} (hoctets : l.octets = o :: rest) (hbang : o.byte = 33)
    (h : l.bangStep setup rest = .token x next) :
    ∃ taken, Leaves l x next taken ∧ TakesMarkup l x next taken := by
  unfold bangStep at h
  split at h
  · cases h
  · split at h
    · cases h
    · split at h
      · cases h
      · next content left htake =>
        have htaken : l.bytes = (content ++ [62]) ++ bytesOf left := by
          rw [bytes, hoctets]
          simpa [hbang] using takeBang_found htake
        have hsuffix : left <:+ l.octets := by
          rw [hoctets]
          exact (rest_takeBang_suffix htake).trans (List.suffix_cons o _)
        dsimp only at h
        split at h
        · cases h
          exact ⟨content ++ [62],
            ⟨htaken, hsuffix, by simp [advance], rfl, rfl, fun hrefinable => ⟨hrefinable, rfl⟩⟩,
            .closed (by simp) (by simp [advance]) rfl (.inl rfl)⟩
        · cases h

/-- What an end tag or an instruction takes. -/
theorem takes_of_takeUntil (hnonempty : l.octets ≠ [])
    (hoffset : next.offset = l.offset + (takeUntil 62 l.octets).size)
    (hlast : next.last = if (takeUntil 62 l.octets).found then some 62
      else l.lastOf (takeUntil 62 l.octets).content)
    (hrest : next.octets = (takeUntil 62 l.octets).rest) (hphase : next.phase = .text)
    (hsettled : l.refinable = false → next.refinable = false ∧ next.charset = l.charset)
    (hposition : x.position = next.offset) (hlexeme : x.last = next.last ∧ x.charset = next.charset)
    (hpiece : x.piece.mustClose = true) :
    ∃ taken, Leaves l x next taken ∧ TakesMarkup l x next taken := by
  obtain ⟨hxlast, hxcharset⟩ := hlexeme
  have hnotMem := notMem_content_takeUntil 62 l.octets
  obtain ⟨closing, hbytes, hsize, hcases⟩ := takeUntil_cases 62 l.octets
  have hsuffix := rest_takeUntil_suffix 62 l.octets
  rw [← hrest] at hbytes hcases hsuffix
  rw [hsize] at hoffset
  refine ⟨(takeUntil 62 l.octets).content ++ closing, ?_⟩
  rcases hcases with ⟨hfound, rfl⟩ | ⟨hfound, rfl, hnone⟩
  · rw [hfound, if_pos rfl] at hlast
    exact ⟨⟨hbytes, hsuffix, by simp [hlast], hxlast, hxcharset, hsettled⟩,
      .closed (by simp) hoffset hposition (.inl hphase)⟩
  · rw [hfound, if_neg Bool.false_ne_true, lastOf_eq] at hlast
    rw [List.append_nil] at hbytes hoffset ⊢
    have hcontent : (takeUntil 62 l.octets).content ≠ [] := by
      intro hempty
      rw [hempty, hnone] at hbytes
      exact hnonempty (List.map_eq_nil_iff.mp hbytes)
    obtain ⟨b, hb⟩ := Option.ne_none_iff_exists'.mp (mt List.getLast?_eq_none_iff.mp hcontent)
    have hb62 : b ≠ 62 := by
      rintro rfl
      exact hnotMem (List.mem_of_getLast? hb)
    exact ⟨⟨hbytes, hsuffix, hlast, hxlast, hxcharset, hsettled⟩,
      .cut hnone hb hb62 hoffset hposition hpiece hphase⟩

theorem endStep_takes (hnonempty : l.octets ≠ []) (h : l.endStep setup = .token x next) :
    ∃ taken, Leaves l x next taken ∧ TakesMarkup l x next taken := by
  unfold endStep at h
  dsimp only at h
  split at h
  · cases h
  · split at h
    · cases h
    · split at h
      · cases h
        exact takes_of_takeUntil hnonempty rfl rfl rfl rfl (fun h => ⟨h, rfl⟩) rfl ⟨rfl, rfl⟩ rfl
      · cases h

/-- An XML declaration only tells how to decode what follows, and only once. -/
theorem refine_eq (l : Lexer) (content : List UInt8) :
    (l.refine content).octets = l.octets ∧ (l.refine content).phase = l.phase ∧
      (l.refine content).offset = l.offset ∧ (l.refine content).last = l.last ∧
      (l.refinable = false →
        (l.refine content).refinable = false ∧ (l.refine content).charset = l.charset) := by
  unfold refine
  split
  · next hrefinable =>
    have hnever : l.refinable ≠ false := by simp [hrefinable]
    split
    · split <;> exact ⟨rfl, rfl, rfl, rfl, fun h => absurd h hnever⟩
    · exact ⟨rfl, rfl, rfl, rfl, fun h => absurd h hnever⟩
  · exact ⟨rfl, rfl, rfl, rfl, fun h => ⟨h, rfl⟩⟩

theorem questionStep_takes (hnonempty : l.octets ≠ [])
    (h : l.questionStep setup = .token x next) :
    ∃ taken, Leaves l x next taken ∧ TakesMarkup l x next taken := by
  unfold questionStep at h
  dsimp only at h
  split at h
  · cases h
  · split at h
    · split at h
      · cases h
        obtain ⟨hoctets, hphase, hoffset, hlast, hsettled⟩ := refine_eq
          { l.advance (takeUntil 62 l.octets).size
              (if (takeUntil 62 l.octets).found then some 62
                else l.lastOf (takeUntil 62 l.octets).content)
              (takeUntil 62 l.octets).rest with phase := .text }
          (List.drop 1 (takeUntil 62 l.octets).content).dropLast
        exact takes_of_takeUntil hnonempty hoffset hlast hoctets hphase
          hsettled hoffset.symm ⟨rfl, rfl⟩ rfl
      · cases h
        exact takes_of_takeUntil hnonempty rfl rfl rfl rfl (fun h => ⟨h, rfl⟩) rfl ⟨rfl, rfl⟩ rfl
    · cases h

theorem startStep_takes (hnonempty : l.octets ≠ []) (hlast : l.last = some 60)
    (h : l.startStep setup = .token x next) :
    ∃ taken, Leaves l x next taken ∧ TakesMarkup l x next taken := by
  unfold startStep at h
  dsimp only at h
  split at h
  · cases h
  · have hsuffix := rest_takeTag_suffix none l.octets
    cases hfound : (takeTag none l.octets).found with
    | true =>
      have hbytes := takeTag_found hfound
      have htaken : l.bytes =
          ((takeTag none l.octets).content ++ [62]) ++ bytesOf (takeTag none l.octets).rest := by
        simpa [bytes] using hbytes
      rw [hfound] at h
      split at h
      · cases h
        exact ⟨_, ⟨htaken, hsuffix, by simp [advance], rfl, rfl, fun h => ⟨h, rfl⟩⟩,
          .closed (by simp) (by simp [advance, Taken.size, hfound]) rfl (.inr ⟨rfl, by simp⟩)⟩
      · cases h
        exact ⟨_, ⟨htaken, hsuffix, by simp [advance], rfl, rfl, fun h => ⟨h, rfl⟩⟩,
          .closed (by simp) (by simp [advance, Taken.size, hfound]) rfl (.inl rfl)⟩
    | false =>
      obtain ⟨hbytes, hnone⟩ := takeTag_missed hfound
      have htaken : l.bytes = ([] ++ (takeTag none l.octets).content) ++
          bytesOf (takeTag none l.octets).rest := by
        simp [bytes, hbytes, hnone]
      have hcontent : (takeTag none l.octets).content ≠ [] := by
        rw [← hbytes]
        simpa using hnonempty
      obtain ⟨b, hb⟩ := Option.ne_none_iff_exists'.mp (mt List.getLast?_eq_none_iff.mp hcontent)
      rw [hfound] at h
      split at h
      · next hslash =>
        have hb47 : b = 47 := by simpa [hb] using hslash
        cases h
        exact ⟨_, ⟨htaken, hsuffix, by simp [advance, lastOf_eq], rfl, rfl, fun h => ⟨h, rfl⟩⟩,
          .cutStart hnone (by simp [hlast]) hb rfl rfl rfl (.inr ⟨rfl, by simp, hb47⟩)⟩
      · cases h
        exact ⟨_, ⟨htaken, hsuffix, by simp [advance, lastOf_eq], rfl, rfl, fun h => ⟨h, rfl⟩⟩,
          .cutStart hnone (by simp [hlast]) hb rfl rfl rfl (.inl rfl)⟩

theorem markupStep_takes (hlast : l.last = some 60) (h : l.markupStep setup = .token x next) :
    ∃ taken, Leaves l x next taken ∧ TakesMarkup l x next taken := by
  unfold markupStep at h
  split at h
  · cases h
  · next o rest hoctets =>
    have hnonempty : l.octets ≠ [] := by simp [hoctets]
    split at h
    · next hbang => exact bangStep_takes hoctets hbang h
    · split at h
      · exact endStep_takes hnonempty h
      · split at h
        · exact questionStep_takes hnonempty h
        · exact startStep_takes hnonempty hlast h

theorem getLast?_append_or (passed taken : List UInt8) (last : Option UInt8) :
    taken.getLast?.or (passed.getLast?.or last) = (passed ++ taken).getLast?.or last := by
  rw [List.getLast?_append, Option.or_assoc]

/-- Markup that is taken behind some bytes is taken with them. -/
theorem TakesMarkup.after {inner : Lexer} {passed taken : List UInt8}
    (h : TakesMarkup inner x next taken) (hoffset : inner.offset = l.offset + passed.length)
    (hlast : inner.last = passed.getLast?.or l.last) : TakesMarkup l x next (passed ++ taken) := by
  cases h with
  | closed hend hnext hposition hphase =>
    refine .closed ?_ ?_ hposition hphase
    · rw [List.getLast?_append, hend, Option.some_or]
    · rw [hnext, hoffset, List.length_append, Nat.add_assoc]
  | cut hrest hend hb hnext hposition hpiece hphase =>
    refine .cut hrest ?_ hb ?_ hposition hpiece hphase
    · rw [List.getLast?_append, hend, Option.some_or]
    · rw [hnext, hoffset, List.length_append, Nat.add_assoc]
  | cutStart hrest hbefore hend hpiece hnext hposition hphase =>
    rw [← List.append_assoc]
    refine .cutStart hrest ?_ hend hpiece ?_ hposition hphase
    · rw [← getLast?_append_or, ← hlast, hbefore]
    · rw [hnext, hoffset, List.length_append, Nat.add_assoc]

theorem Leaves.after {inner : Lexer} {passed taken : List UInt8} (h : Leaves inner x next taken)
    (hbytes : l.bytes = passed ++ inner.bytes) (hoctets : inner.octets <:+ l.octets)
    (hlast : inner.last = passed.getLast?.or l.last)
    (hsettled : inner.refinable = l.refinable ∧ inner.charset = l.charset) :
    Leaves l x next (passed ++ taken) where
  bytes := by rw [hbytes, h.bytes, List.append_assoc]
  octets := h.octets.trans hoctets
  last := by rw [h.last, hlast, getLast?_append_or]
  lexeme_last := h.lexeme_last
  lexeme_charset := h.lexeme_charset
  settled := by
    rw [← hsettled.1, ← hsettled.2]
    exact h.settled

/-- Text is what is shown of it, and blanks behind it. -/
theorem trimTextEnd_append (content : List UInt8) :
    ∃ after, content = trimTextEnd content ++ after ∧ ∀ b ∈ after, isMarkupBlank b = true := by
  unfold trimTextEnd
  split
  · exact ⟨[], by simp, by simp⟩
  · refine ⟨(content.reverse.takeWhile isMarkupBlank).reverse, ?_, fun b hb => ?_⟩
    · rw [← List.reverse_append, List.takeWhile_append_dropWhile, List.reverse_reverse]
    · exact List.all_eq_true.mp List.all_takeWhile b (List.mem_reverse.mp hb)

theorem blanks_prefix (setup : LexerSetup) (octets : List Octet) :
    let blanks := if setup.trimText then octets.takeWhile (isMarkupBlank ·.byte) else []
    octets = blanks ++ octets.drop blanks.length ∧ ∀ b ∈ bytesOf blanks, isMarkupBlank b = true := by
  dsimp only
  split
  · refine ⟨(List.prefix_iff_eq_append.mp (List.takeWhile_prefix _)).symm, fun b hb => ?_⟩
    obtain ⟨o, ho, rfl⟩ := List.mem_map.mp hb
    exact List.all_eq_true.mp List.all_takeWhile o ho
  · simp

/-- What text takes behind the blanks that are dropped. -/
theorem takes_text {inner : Lexer} {blanks : List UInt8} (hphase : l.phase = .text)
    (hblanks : ∀ b ∈ blanks, isMarkupBlank b = true) (hbytes : l.bytes = blanks ++ inner.bytes)
    (hoctets : inner.octets <:+ l.octets)
    (hoffset : inner.offset = l.offset + blanks.length)
    (hbefore : inner.last = blanks.getLast?.or l.last)
    (hnext : next = { inner.advance (takeUntil 60 inner.octets).size
        (if (takeUntil 60 inner.octets).found then some 60
          else inner.lastOf (takeUntil 60 inner.octets).content)
        (takeUntil 60 inner.octets).rest with phase := .markup })
    (hsettled : inner.refinable = l.refinable ∧ inner.charset = l.charset)
    (hlexeme : x.last = next.last ∧ x.charset = next.charset)
    (hpiece : x.piece = .text (if setup.trimText then trimTextEnd (takeUntil 60 inner.octets).content
      else (takeUntil 60 inner.octets).content)) :
    ∃ taken, Leaves l x next taken ∧ Takes l x next taken := by
  obtain ⟨shown, after, hshown, hcontent, hafter⟩ : ∃ shown after,
      (if setup.trimText then trimTextEnd (takeUntil 60 inner.octets).content
        else (takeUntil 60 inner.octets).content) = shown ∧
      (takeUntil 60 inner.octets).content = shown ++ after ∧
      ∀ b ∈ after, isMarkupBlank b = true := by
    cases setup.trimText with
    | true =>
      obtain ⟨after, hafter⟩ := trimTextEnd_append (takeUntil 60 inner.octets).content
      exact ⟨_, after, rfl, hafter⟩
    | false => exact ⟨_, [], rfl, by simp, by simp⟩
  have hnotMem := notMem_content_takeUntil 60 inner.octets
  obtain ⟨bracket, htaken, hsize, hcases⟩ := takeUntil_cases 60 inner.octets
  have hblank : ∀ b ∈ blanks ++ after, isMarkupBlank b = true := by
    intro b hb
    rcases List.mem_append.mp hb with hb | hb
    · exact hblanks b hb
    · exact hafter b hb
  have hclosing : next.last = ((takeUntil 60 inner.octets).content ++ bracket).getLast?.or
      inner.last := by
    rw [hnext]
    rcases hcases with ⟨hfound, rfl⟩ | ⟨hfound, rfl, -⟩ <;> simp [advance, hfound, lastOf_eq]
  rw [hshown] at hpiece
  rw [hcontent] at htaken hsize hnotMem hclosing
  refine ⟨blanks ++ shown ++ after ++ bracket, ⟨?_, ?_, ?_, hlexeme.1, hlexeme.2, ?_⟩,
    .text hphase hpiece ?_ hblank ?_ ?_ ?_ (by rw [hnext])⟩
  · rw [hbytes, hnext]
    simpa [bytes, advance] using htaken
  · rw [hnext]
    exact (rest_takeUntil_suffix 60 inner.octets).trans hoctets
  · rw [hclosing, hbefore, getLast?_append_or]
    simp only [List.append_assoc]
  · rw [hnext, ← hsettled.1, ← hsettled.2]
    exact fun h => ⟨h, rfl⟩
  · rw [hnext]
    exact hsettled.2
  · intro h60
    exact hnotMem (List.mem_append_left _ h60)
  · rcases hcases with ⟨-, hbracket⟩ | ⟨-, hbracket, hnone⟩
    · exact .inl hbracket
    · exact .inr ⟨hbracket, by rw [hnext]; exact hnone⟩
  · rw [hnext]
    simp only [advance, hsize, hoffset, List.length_append]
    omega

theorem textStep_takes (hphase : l.phase = .text) (h : l.textStep setup = .token x next) :
    ∃ taken, Leaves l x next taken ∧ Takes l x next taken := by
  obtain ⟨hsplit, hall⟩ := blanks_prefix setup l.octets
  unfold textStep at h
  dsimp only at h hsplit hall
  generalize (if setup.trimText = true then
    l.octets.takeWhile (isMarkupBlank ·.byte) else []) = blanks at h hsplit hall
  have hlast : l.lastOf (blanks.map (·.byte)) = (bytesOf blanks).getLast?.or l.last := lastOf_eq _ _
  -- `inner` stands behind the blanks that are dropped.
  generalize hinner : l.advance blanks.length (l.lastOf (blanks.map (·.byte)))
    (l.octets.drop blanks.length) = inner at h
  have hbytes : l.bytes = bytesOf blanks ++ inner.bytes := by
    rw [← hinner, bytes_advance, bytes, hsplit]
    simp
  have hoffset : inner.offset = l.offset + (bytesOf blanks).length := by simp [← hinner, advance]
  have hbefore : inner.last = (bytesOf blanks).getLast?.or l.last := by rw [← hlast, ← hinner]; rfl
  have hsettled : inner.refinable = l.refinable ∧ inner.charset = l.charset := by
    rw [← hinner]
    exact ⟨rfl, rfl⟩
  have hsuffix : inner.octets <:+ l.octets := by
    rw [← hinner]
    exact List.drop_suffix _ _
  split at h
  · cases h
  · next o rest hoctets =>
    split at h
    · next hbracket =>
      obtain ⟨taken, hleaves, hmarkup⟩ := markupStep_takes rfl h
      have hpassed : l.bytes = (bytesOf blanks ++ [60]) ++ bytesOf rest := by
        rw [hbytes, bytes, hoctets]
        simp [hbracket]
      have hrest : rest <:+ l.octets := by
        rw [hoctets] at hsuffix
        exact (List.suffix_cons o rest).trans hsuffix
      exact ⟨_, hleaves.after hpassed hrest (by simp [advance]) hsettled,
        .markup (hmarkup.after (by simp [advance, hoffset, Nat.add_assoc]) (by simp [advance]))⟩
    · split at h
      · cases h
      · cases h
        exact takes_text hphase hall hbytes hsuffix hoffset hbefore rfl hsettled ⟨rfl, rfl⟩ rfl

/-- What holds of a lexer behind its first step. -/
structure Ready (l : Lexer) : Prop where
  begun : l.phase ≠ .start
  bracket : l.phase = .markup → l.last = some 60 ∨ l.octets = []
  named : l.phase = .selfClosed → l.openNames ≠ []

theorem step_takes (hready : l.Ready) (h : l.step setup = .token x next) :
    ∃ taken, Leaves l x next taken ∧ Takes l x next taken := by
  unfold step at h
  split at h
  · next hphase => exact absurd hphase hready.begun
  · next hphase => exact textStep_takes hphase h
  · next hphase =>
    rcases hready.bracket hphase with hlast | hnone
    · obtain ⟨taken, hleaves, hmarkup⟩ := markupStep_takes hlast h
      exact ⟨taken, hleaves, .markup hmarkup⟩
    · rw [markupStep, hnone] at h
      cases h
  · next hphase =>
    split at h
    · cases h
    · cases h
      exact ⟨[], ⟨rfl, List.suffix_refl _, rfl, rfl, rfl, fun h => ⟨h, rfl⟩⟩,
        .selfClosed hphase rfl rfl rfl rfl rfl⟩

theorem Takes.ready {taken : List UInt8} (hleaves : Leaves l x next taken)
    (h : Takes l x next taken) : next.Ready := by
  have hnext := hleaves.last
  cases h with
  | markup hmarkup =>
    cases hmarkup with
    | closed _ _ _ hphase =>
      rcases hphase with hphase | ⟨hphase, hnames⟩
      · exact ⟨by simp [hphase], by simp [hphase], by simp [hphase]⟩
      · exact ⟨by simp [hphase], by simp [hphase], fun _ => hnames⟩
    | cut _ _ _ _ _ _ hphase => exact ⟨by simp [hphase], by simp [hphase], by simp [hphase]⟩
    | cutStart _ _ _ _ _ _ hphase =>
      rcases hphase with hphase | ⟨hphase, hnames, -⟩
      · exact ⟨by simp [hphase], by simp [hphase], by simp [hphase]⟩
      · exact ⟨by simp [hphase], by simp [hphase], fun _ => hnames⟩
  | text _ _ _ _ _ hbracket _ hphase =>
    refine ⟨by simp [hphase], fun _ => ?_, by simp [hphase]⟩
    rcases hbracket with rfl | ⟨-, hnone⟩
    · exact .inl (by simpa using hnext)
    · exact .inr hnone
  | selfClosed _ _ _ hphase => exact ⟨by simp [hphase], by simp [hphase], by simp [hphase]⟩

/-! ## The end -/

theorem atEnd_eq_done {p : Nat} (h : l.atEnd setup = .done p none) : setup.failure = none := by
  unfold atEnd at h
  cases hfailure : setup.failure with
  | none => rfl
  | some m =>
    rw [hfailure] at h
    cases h

theorem bangStep_ne_done (setup : LexerSetup) (l : Lexer) (rest : List Octet) (p : Nat) :
    l.bangStep setup rest ≠ .done p none := by
  unfold bangStep
  split
  · simp
  · split
    · simp
    · split
      · simp
      · dsimp only
        split <;> simp [emit]

theorem endStep_ne_done (setup : LexerSetup) (l : Lexer) (p : Nat) :
    l.endStep setup ≠ .done p none := by
  unfold endStep
  dsimp only
  split
  · next hfailed =>
    intro h
    simp [atEnd_eq_done h] at hfailed
  · split
    · simp
    · split <;> simp [emit]

theorem questionStep_ne_done (setup : LexerSetup) (l : Lexer) (p : Nat) :
    l.questionStep setup ≠ .done p none := by
  unfold questionStep
  dsimp only
  split
  · next hfailed =>
    intro h
    simp [atEnd_eq_done h] at hfailed
  · split
    · split <;> simp [emit]
    · simp

theorem startStep_ne_done (setup : LexerSetup) (l : Lexer) (p : Nat) :
    l.startStep setup ≠ .done p none := by
  unfold startStep
  dsimp only
  split
  · next hfailed =>
    intro h
    simp [atEnd_eq_done h] at hfailed
  · split <;> simp [emit]

theorem octets_eq_nil_of_markupStep {p : Nat} (h : l.markupStep setup = .done p none) :
    l.octets = [] := by
  unfold markupStep at h
  split at h
  · next hoctets => exact hoctets
  · split at h
    · exact absurd h (bangStep_ne_done setup l _ p)
    · split at h
      · exact absurd h (endStep_ne_done setup l p)
      · split at h
        · exact absurd h (questionStep_ne_done setup l p)
        · exact absurd h (startStep_ne_done setup l p)

theorem textStep_done {p : Nat} (h : l.textStep setup = .done p none) :
    ∃ blanks bracket, l.bytes = blanks ++ bracket ∧ (∀ b ∈ blanks, isMarkupBlank b = true) ∧
      (bracket = [] ∨ bracket = [60]) := by
  obtain ⟨hsplit, hall⟩ := blanks_prefix setup l.octets
  unfold textStep at h
  dsimp only at h hsplit hall
  generalize (if setup.trimText = true then
    l.octets.takeWhile (isMarkupBlank ·.byte) else []) = blanks at h hsplit hall
  generalize hinner : l.advance blanks.length (l.lastOf (blanks.map (·.byte)))
    (l.octets.drop blanks.length) = inner at h
  have hbytes : l.bytes = bytesOf blanks ++ inner.bytes := by
    rw [← hinner, bytes_advance, bytes, hsplit]
    simp
  refine ⟨bytesOf blanks, inner.bytes, hbytes, hall, ?_⟩
  split at h
  · next hoctets => exact .inl (by simp [bytes, hoctets])
  · next o rest hoctets =>
    split at h
    · next hbracket =>
      have hrest : rest = [] := octets_eq_nil_of_markupStep h
      exact .inr (by simp [bytes, hoctets, hbracket, hrest])
    · split at h
      · next hfailed => simp [atEnd_eq_done h] at hfailed
      · cases h

/-- A lexer ends without a fault at the end of its bytes, or behind a last `<`. -/
theorem step_done {p : Nat} (hready : l.Ready) (h : l.step setup = .done p none) :
    l.phase = .markup ∧ l.bytes = [] ∨
      l.phase = .text ∧ ∃ blanks bracket, l.bytes = blanks ++ bracket ∧
        (∀ b ∈ blanks, isMarkupBlank b = true) ∧ (bracket = [] ∨ bracket = [60]) := by
  unfold step at h
  split at h
  · next hphase => exact absurd hphase hready.begun
  · next hphase => exact .inr ⟨hphase, textStep_done h⟩
  · next hphase => exact .inl ⟨hphase, by rw [bytes, octets_eq_nil_of_markupStep h]; rfl⟩
  · next hphase =>
    split at h
    · next hnone => exact absurd hnone (hready.named hphase)
    · cases h

end

end Lexer

end ScopedXml.Markup
