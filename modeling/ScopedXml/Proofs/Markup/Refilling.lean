import ScopedXml.Proofs.Markup.Running

/-!
# Refilling the buffer

Behind its start the lexer looks at the fills for one purpose only: the `<` that are open within a
document type declaration are counted anew in each of them. Where no fill begins while one is open
(`Unbroken`), a lexer finds what it finds in the bytes without the marks of their fills
(`Lexer.run_plain`).
-/

namespace ScopedXml.Markup

open Text

/-! ## Declarations across fills -/

/-- From here to the `>` at which no `<` is open, none is open where a fill begins. -/
def Level : Nat → List Octet → Prop
  | _, [] => True
  | depth, o :: rest =>
    (o.fresh = true → depth = 0) ∧
      (o.byte = 62 ∧ depth = 0 ∨ Level (depthAfter depth o.byte) rest)

instance decidableLevel : ∀ depth octets, Decidable (Level depth octets)
  | _, [] => .isTrue trivial
  | depth, o :: rest =>
    have := decidableLevel (depthAfter depth o.byte) rest
    inferInstanceAs (Decidable (_ ∧ _))

/-- If a document type declaration comes here, behind its `<`, then no fill begins within it while
another `<` is open. -/
def KeepsLevel : List Octet → Prop
  | bang :: o :: rest =>
    bang.byte = 33 → Bang.ofByte? o.byte = some .doctype → Level 0 (o :: rest)
  | _ => True

instance decidableKeepsLevel : ∀ octets, Decidable (KeepsLevel octets)
  | [] => .isTrue trivial
  | [_] => .isTrue trivial
  | _ :: _ :: _ => inferInstanceAs (Decidable (_ → _))

/-- No document type declaration is broken by the beginning of a fill. -/
def Unbroken : List Octet → Prop
  | [] => True
  | o :: rest => (o.byte = 60 → KeepsLevel rest) ∧ Unbroken rest

instance decidableUnbroken : ∀ octets, Decidable (Unbroken octets)
  | [] => .isTrue trivial
  | _ :: rest =>
    have := decidableUnbroken rest
    inferInstanceAs (Decidable (_ ∧ _))

theorem Unbroken.of_suffix {octets rest : List Octet} (h : Unbroken octets)
    (hsuffix : rest <:+ octets) : Unbroken rest := by
  induction octets with
  | nil => rwa [List.suffix_nil.mp hsuffix]
  | cons o octets ih =>
    rcases List.suffix_cons_iff.mp hsuffix with rfl | hsuffix
    · exact h
    · exact ih h.2 hsuffix

/-- Behind every `<` the level is kept. -/
theorem Unbroken.keepsLevel {octets rest : List Octet} {o : Octet} (h : Unbroken octets)
    (hsuffix : o :: rest <:+ octets) (hbyte : o.byte = 60) : KeepsLevel rest :=
  (h.of_suffix hsuffix).1 hbyte

/-- Within one fill nothing is broken. -/
theorem level_of_stale {octets : List Octet} (h : ∀ o ∈ octets, o.fresh = false) (depth : Nat) :
    Level depth octets := by
  induction octets generalizing depth with
  | nil => trivial
  | cons o rest ih =>
    have hstale : o.fresh = false := h o (List.mem_cons_self ..)
    refine ⟨fun hfresh => ?_, .inr (ih (fun o ho => h o (List.mem_cons_of_mem _ ho)) _)⟩
    rw [hstale] at hfresh
    cases hfresh

theorem unbroken_of_stale {octets : List Octet} (h : ∀ o ∈ octets, o.fresh = false) :
    Unbroken octets := by
  induction octets with
  | nil => trivial
  | cons o rest ih =>
    have hrest : ∀ o ∈ rest, o.fresh = false := fun o ho => h o (List.mem_cons_of_mem _ ho)
    refine ⟨fun _ => ?_, ih hrest⟩
    match rest with
    | [] => trivial
    | [_] => trivial
    | bang :: o :: rest =>
      exact fun _ _ => level_of_stale (fun o ho => hrest o (List.mem_cons_of_mem _ ho)) 0

theorem unbroken_fill (bytes : List UInt8) : Unbroken (Octet.fill bytes) := by
  cases bytes with
  | nil => trivial
  | cons b rest =>
    have hrest : ∀ o ∈ rest.map (Octet.mk · false), o.fresh = false := by simp
    refine ⟨fun _ => ?_, unbroken_of_stale hrest⟩
    have hkeeps : Unbroken (⟨60, false⟩ :: rest.map (Octet.mk · false)) :=
      unbroken_of_stale (by simp)
    exact hkeeps.1 rfl

/-! ## Taking bytes -/

/-- The bytes without the marks of their fills. -/
def plain (octets : List Octet) : List Octet := (bytesOf octets).map (Octet.mk · false)

@[simp] theorem plain_nil : plain [] = [] := rfl

@[simp] theorem plain_cons (o : Octet) (rest : List Octet) :
    plain (o :: rest) = ⟨o.byte, false⟩ :: plain rest := rfl

theorem plain_drop (n : Nat) (octets : List Octet) :
    plain (octets.drop n) = (plain octets).drop n := by
  simp [plain, List.map_drop]

abbrev Taken.plain (t : Taken) : Taken := { t with rest := Markup.plain t.rest }

theorem takeUntil_plain (stop : UInt8) (octets : List Octet) :
    takeUntil stop (plain octets) = (takeUntil stop octets).plain := by
  induction octets with
  | nil => rfl
  | cons o rest ih =>
    simp only [plain_cons, takeUntil]
    split
    · rfl
    · rw [ih]

theorem takeTag_plain (quote : Option UInt8) (octets : List Octet) :
    takeTag quote (plain octets) = (takeTag quote octets).plain := by
  induction octets generalizing quote with
  | nil => rfl
  | cons o rest ih =>
    simp only [plain_cons, takeTag]
    split
    · rfl
    · rw [ih]

theorem takeWhile_plain (p : UInt8 → Bool) (octets : List Octet) :
    (plain octets).takeWhile (p ·.byte) = plain (octets.takeWhile (p ·.byte)) := by
  induction octets with
  | nil => rfl
  | cons o rest ih =>
    simp only [plain_cons, List.takeWhile_cons]
    split
    · rw [ih, plain_cons]
    · rfl

/-- What a comment or a CDATA section is does not depend on any depth. -/
theorem takeBang_plain {kind : Bang} (hkind : kind ≠ .doctype) (rev : List UInt8)
    (depth depth' : Nat) (octets : List Octet) :
    takeBang kind rev depth' (plain octets) =
      (takeBang kind rev depth octets).map fun (content, rest) => (content, plain rest) := by
  have hcloses : ∀ rev depth depth', kind.closes rev depth = kind.closes rev depth' := by
    cases kind with
    | comment => exact fun _ _ _ => rfl
    | cdata => exact fun _ _ _ => rfl
    | doctype => exact absurd rfl hkind
  induction octets generalizing rev depth depth' with
  | nil => rfl
  | cons o rest ih =>
    simp only [plain_cons, takeBang]
    rw [hcloses rev _ depth, hcloses rev (if o.fresh = true then 0 else depth) depth]
    split
    · rfl
    · exact ih _ _ _

theorem takeBang_plain_of_level (rev : List UInt8) {depth : Nat} {octets : List Octet}
    (h : Level depth octets) :
    takeBang .doctype rev depth (plain octets) =
      (takeBang .doctype rev depth octets).map fun (content, rest) => (content, plain rest) := by
  induction octets generalizing rev depth with
  | nil => rfl
  | cons o rest ih =>
    obtain ⟨hfresh, hlater⟩ := h
    have hdepth : (if o.fresh = true then 0 else depth) = depth := by
      split
      · next hbegins => exact (hfresh hbegins).symm
      · rfl
    simp only [plain_cons, takeBang, hdepth, Bool.false_eq_true, if_false]
    split
    · rfl
    · next hopen =>
      rcases hlater with ⟨hbyte, hzero⟩ | hlater
      · exact absurd ⟨hbyte, by simp [Bang.closes, hzero]⟩ hopen
      · exact ih _ hlater

namespace Lexer

variable {setup : LexerSetup} {l next : Lexer} {x : Lexeme}

/-! ## Steps -/

/-- The lexer of the same bytes without the marks of their fills. -/
def plain (l : Lexer) : Lexer := { l with octets := Markup.plain l.octets }

def Step.plain : Step → Step
  | .token x next => .token x next.plain
  | .done p fault => .done p fault

theorem bangStep_plain (setup : LexerSetup) (l : Lexer) {bang : Octet} {rest : List Octet}
    (hbang : bang.byte = 33) (hlevel : KeepsLevel (bang :: rest)) :
    l.plain.bangStep setup (Markup.plain rest) = (l.bangStep setup rest).plain := by
  cases rest with
  | nil => rfl
  | cons o rest =>
    unfold bangStep
    simp only [plain_cons]
    cases hkind : Bang.ofByte? o.byte with
    | none => rfl
    | some kind =>
      have htake : takeBang kind [33] 0 (⟨o.byte, false⟩ :: Markup.plain rest) =
          (takeBang kind [33] 0 (o :: rest)).map fun (content, rest) =>
            (content, Markup.plain rest) := by
        by_cases hdoctype : kind = .doctype
        · rw [hdoctype] at hkind ⊢
          exact takeBang_plain_of_level [33] (hlevel hbang hkind)
        · exact takeBang_plain hdoctype [33] 0 0 (o :: rest)
      dsimp only
      rw [htake]
      cases takeBang kind [33] 0 (o :: rest) with
      | none => rfl
      | some found =>
        obtain ⟨content, left⟩ := found
        dsimp only [Option.map_some]
        cases kind.piece content <;> rfl

theorem endStep_plain (setup : LexerSetup) (l : Lexer) :
    l.plain.endStep setup = (l.endStep setup).plain := by
  unfold endStep
  have htaken : takeUntil 62 l.plain.octets = (takeUntil 62 l.octets).plain :=
    takeUntil_plain 62 l.octets
  rw [htaken]
  generalize takeUntil 62 l.octets = taken
  dsimp only [advance, plain]
  split
  · rfl
  · cases l.openNames with
    | nil => rfl
    | cons expected outer =>
      dsimp only
      split <;> rfl

theorem refine_plain (l : Lexer) (content : List UInt8) :
    l.plain.refine content = (l.refine content).plain := by
  unfold refine plain
  split
  · split
    · split <;> rfl
    · rfl
  · rfl

theorem emit_refine_plain (l : Lexer) (content : List UInt8) (p : Nat) :
    (l.plain.refine content).emit (.declaration content) p =
      ((l.refine content).emit (.declaration content) p).plain := by
  rw [refine_plain]
  rfl

theorem questionStep_plain (setup : LexerSetup) (l : Lexer) :
    l.plain.questionStep setup = (l.questionStep setup).plain := by
  unfold questionStep
  have htaken : takeUntil 62 l.plain.octets = (takeUntil 62 l.octets).plain :=
    takeUntil_plain 62 l.octets
  rw [htaken]
  generalize takeUntil 62 l.octets = taken
  dsimp only
  split
  · rfl
  · split
    · split
      · exact emit_refine_plain
          { l.advance taken.size (if taken.found then some 62 else l.lastOf taken.content)
              taken.rest with phase := .text } _ _
      · rfl
    · rfl

theorem startStep_plain (setup : LexerSetup) (l : Lexer) :
    l.plain.startStep setup = (l.startStep setup).plain := by
  unfold startStep
  have htaken : takeTag none l.plain.octets = (takeTag none l.octets).plain :=
    takeTag_plain none l.octets
  rw [htaken]
  generalize takeTag none l.octets = taken
  dsimp only
  split
  · rfl
  · split <;> rfl

theorem markupStep_plain (setup : LexerSetup) (hlevel : KeepsLevel l.octets) :
    l.plain.markupStep setup = (l.markupStep setup).plain := by
  unfold markupStep
  have hoctets : l.plain.octets = Markup.plain l.octets := rfl
  rw [hoctets]
  cases h : l.octets with
  | nil => rfl
  | cons o rest =>
    rw [h] at hlevel
    simp only [plain_cons]
    split
    · next hbang => exact bangStep_plain setup l hbang hlevel
    · split
      · exact endStep_plain setup l
      · split
        · exact questionStep_plain setup l
        · exact startStep_plain setup l

theorem textStep_plain (setup : LexerSetup) (hunbroken : Unbroken l.octets) :
    l.plain.textStep setup = (l.textStep setup).plain := by
  unfold textStep
  have hoctets : l.plain.octets = Markup.plain l.octets := rfl
  have hblanks : (if setup.trimText = true then
      (Markup.plain l.octets).takeWhile (isMarkupBlank ·.byte) else []) = Markup.plain
        (if setup.trimText = true then l.octets.takeWhile (isMarkupBlank ·.byte) else []) := by
    split
    · exact takeWhile_plain isMarkupBlank l.octets
    · rfl
  rw [hoctets, hblanks]
  dsimp only
  generalize (if setup.trimText = true then
    l.octets.takeWhile (isMarkupBlank ·.byte) else []) = blanks
  generalize hinner : l.advance blanks.length (l.lastOf (blanks.map (·.byte)))
    (l.octets.drop blanks.length) = inner
  have hplain : l.plain.advance (Markup.plain blanks).length
      (l.plain.lastOf ((Markup.plain blanks).map (·.byte)))
      ((Markup.plain l.octets).drop (Markup.plain blanks).length) = inner.plain := by
    have hlength : (Markup.plain blanks).length = blanks.length := by simp [Markup.plain]
    have hbytes : (Markup.plain blanks).map (·.byte) = blanks.map (·.byte) := by
      simp [Markup.plain, Function.comp_def]
    rw [← hinner, hlength, hbytes, ← plain_drop]
    rfl
  rw [hplain]
  have hsuffix : inner.octets <:+ l.octets := by
    rw [← hinner]
    exact List.drop_suffix _ _
  have hinnerOctets : inner.plain.octets = Markup.plain inner.octets := rfl
  rw [hinnerOctets]
  cases h : inner.octets with
  | nil => rfl
  | cons o rest =>
    rw [takeUntil_plain 60 (o :: rest)]
    generalize takeUntil 60 (o :: rest) = taken
    dsimp only [plain_cons]
    split
    · next hbracket =>
      rw [h] at hsuffix
      exact markupStep_plain (l := inner.advance 1 (some 60) rest) setup
        (hunbroken.keepsLevel hsuffix hbracket)
    · split <;> rfl

/-- What has to hold of a lexer for the fills not to matter. -/
structure Steady (l : Lexer) : Prop where
  ready : l.Ready
  unbroken : Unbroken l.octets
  behind : l.phase = .markup → KeepsLevel l.octets

theorem step_plain (setup : LexerSetup) (h : l.Steady) :
    l.plain.step setup = (l.step setup).plain := by
  unfold step
  have hphase : l.plain.phase = l.phase := rfl
  rw [hphase]
  cases hl : l.phase with
  | start => exact absurd hl h.ready.begun
  | text => exact textStep_plain setup h.unbroken
  | markup => exact markupStep_plain setup (h.behind hl)
  | selfClosed =>
    dsimp only [plain]
    split <;> rfl

/-- The byte that was taken last stands in front of what is left. -/
theorem Leaves.exists_suffix {taken : List UInt8} {b : UInt8} (h : Leaves l x next taken)
    (hlast : taken.getLast? = some b) : ∃ o : Octet, o.byte = b ∧ o :: next.octets <:+ l.octets := by
  obtain ⟨passed, hpassed⟩ := h.octets
  have hbytes : bytesOf passed = taken := by
    have hsplit : bytesOf (passed ++ next.octets) = taken ++ next.bytes := hpassed ▸ h.bytes
    rw [bytesOf, List.map_append] at hsplit
    exact List.append_cancel_right hsplit
  rw [← hbytes, bytesOf, List.getLast?_map] at hlast
  obtain ⟨o, ho, hbyte⟩ := Option.map_eq_some_iff.mp hlast
  obtain ⟨before, hbefore⟩ := List.getLast?_eq_some_iff.mp ho
  exact ⟨o, hbyte, before, by rw [← hpassed, hbefore, List.append_assoc]; rfl⟩

theorem Steady.after (h : l.Steady) (htoken : l.step setup = .token x next) : next.Steady := by
  obtain ⟨taken, hleaves, htakes⟩ := step_takes h.ready htoken
  refine ⟨htakes.ready hleaves, h.unbroken.of_suffix hleaves.octets, fun hphase => ?_⟩
  have hmarkup : ∀ {p : Prop}, next.phase = .text → p := fun htext => by
    rw [htext] at hphase
    cases hphase
  cases htakes with
  | markup hmarkup' =>
    cases hmarkup' with
    | closed _ _ _ hnext =>
      rcases hnext with hnext | ⟨hnext, -⟩
      · exact hmarkup hnext
      · rw [hnext] at hphase
        cases hphase
    | cut _ _ _ _ _ _ hnext => exact hmarkup hnext
    | cutStart _ _ _ _ _ _ hnext =>
      rcases hnext with hnext | ⟨hnext, -, -⟩
      · exact hmarkup hnext
      · rw [hnext] at hphase
        cases hphase
  | text _ _ _ _ _ hbracket _ _ =>
    rcases hbracket with rfl | ⟨-, hnone⟩
    · obtain ⟨o, hbyte, hsuffix⟩ := hleaves.exists_suffix List.getLast?_concat
      exact h.unbroken.keepsLevel hsuffix hbyte
    · rw [hnone]
      trivial
  | selfClosed _ _ _ hnext _ _ => exact hmarkup hnext

theorem run_plain (h : l.Steady) : l.plain.run setup = l.run setup := by
  induction l using Lexer.run.induct setup with
  | case1 l p fault hdone =>
    have hplain := step_plain setup h
    rw [hdone] at hplain
    rw [run_done hdone, run_done hplain]
  | case2 l x next htoken ih =>
    have hplain := step_plain setup h
    rw [htoken] at hplain
    rw [run_token htoken, run_token hplain, ih (h.after htoken)]

end Lexer

end ScopedXml.Markup
