import ScopedXml.Proofs.Namespace.Malformed
import ScopedXml.Proofs.Reader.AttributeNames
import ScopedXml.Proofs.Reader.Nesting

/-!
# Start tags with malformed names

A start tag fails if its name, or the name of an attribute, is malformed. The names of declarations
are the exception: what stands behind `xmlns:` is taken for a prefix, whatever it is. A lawful
declaration of a prefix that no name can ask for changes nothing: the document is read as it would
be without it (`DocumentReader.malformed_fails_or_idle`).

* `Reading.Alike`: two readings in whose scopes names find the same.
* `Reading.run_fails`: a piece that no reading gets over.
* `Reading.ElementNamed`, `Reading.AttributeNamed`: a name that is written in a tag.
* `DocumentReader.FailsBehind`: a document fails, and nothing is told of it from some place on.
-/

namespace ScopedXml

open Markup

open Namespace (Malformed)

/-! ## Transcripts that fail -/

/-- A document ends in a failure, or in a fatal diagnostic. -/
def Transcript.Fails (t : Transcript) : Prop :=
  t.failure ≠ none ∨ ∃ d, .report d ∈ t.items ∧ d.severity = .fatal

theorem Transcript.Fails.behind {t : Transcript} (h : t.Fails) (items : List Item) :
    Transcript.Fails { t with items := items ++ t.items } := by
  refine h.imp_right ?_
  rintro ⟨d, hd, hfatal⟩
  exact ⟨d, List.mem_append_right items hd, hfatal⟩

/-- Whoever listens hears of the failure, or fails before. -/
theorem Transcript.Fails.deliver {P C : Type} {t : Transcript} (h : t.Fails) (policy : Policy P)
    (receiver : Receiver C) (p : P) (c : C) :
    ∃ e, (t.deliver policy receiver p c).1 = .error e := by
  cases hanswer : (t.deliver policy receiver p c).1 with
  | error e => exact ⟨e, rfl⟩
  | ok answer =>
    obtain ⟨-, hnone, hmild⟩ := Transcript.complete_of_ok hanswer
    rcases h with hfailure | ⟨d, hd, hfatal⟩
    · exact absurd hnone hfailure
    · exact absurd hfatal (hmild d hd)

namespace Reading

variable {schema : Schema} {origin : Origin} {r r' : Reading} {x y : Lexeme}

/-! ## Readings that differ in idle declarations -/

/-- The same readings, but for scopes in which names find the same. -/
inductive Alike : Reading → Reading → Prop
  | intro {s s' : Namespace.Scopes} (opened : List QualifiedName) (seenRoot : Bool)
    (validator : Option Schema.Validator) : s.Alike s' →
    Alike ⟨s, opened, seenRoot, validator⟩ ⟨s', opened, seenRoot, validator⟩

theorem Alike.refl (r : Reading) : r.Alike r := .intro _ _ _ (.refl r.scopes)

/-- The same items, and alike readings if there are readings to go on with. -/
inductive AlikeOutcomes : Outcome → Outcome → Prop
  | stops (items : List Item) (failure : Option ReadFailure) :
    AlikeOutcomes ⟨items, .stop failure⟩ ⟨items, .stop failure⟩
  | goesOn (items : List Item) {r r' : Reading} : r.Alike r' →
    AlikeOutcomes ⟨items, .continue r⟩ ⟨items, .continue r'⟩

theorem resolve_alike {s s' : Namespace.Scopes} (h : s.Alike s') (name : String)
    (attributes : List (String × String)) :
    resolve s name attributes = resolve s' name attributes := by
  unfold resolve
  rw [h.element, funext h.attr]

theorem openElement_alike (h : r.Alike r') (position : Nat) (name : String)
    {attributes others : List WrittenAttribute} (hplain : plainOf attributes = plainOf others)
    (hchecks : (declarationsOf attributes).forM Namespace.Declaration.check =
      (declarationsOf others).forM Namespace.Declaration.check)
    (hsame : Namespace.SameFound (declarationsOf attributes) (declarationsOf others)) :
    AlikeOutcomes (openElement schema r position name attributes)
      (openElement schema r' position name others) := by
  cases h with
  | intro opened seenRoot validator hscopes =>
    unfold openElement
    dsimp only
    split
    · exact .stops _ _
    · rcases hscopes.enter hchecks hsame with ⟨fault, hs, hs'⟩ | ⟨t, t', hs, hs', ht⟩
      · rw [hs, hs']
        exact .stops _ _
      · rw [hs, hs', hplain]
        dsimp only
        rw [resolve_alike ht]
        split
        · exact .stops _ _
        · cases validator with
          | none => exact .goesOn _ (.intro _ _ _ ht)
          | some v => exact .goesOn _ (.intro _ _ _ ht)

theorem closeElement_alike (h : r.Alike r') (position : Nat) (written : String) :
    AlikeOutcomes (closeElement schema r position written)
      (closeElement schema r' position written) := by
  cases h with
  | intro opened seenRoot validator hscopes =>
    cases opened with
    | nil => exact .stops _ _
    | cons name outer =>
      cases validator with
      | none => exact .goesOn _ (.intro _ _ _ hscopes.leave)
      | some v => exact .goesOn _ (.intro _ _ _ hscopes.leave)

theorem characters_alike (h : r.Alike r') (position : Nat) (s : String) :
    AlikeOutcomes (r.characters position s) (r'.characters position s) := by
  cases h with
  | intro opened seenRoot validator hscopes =>
    unfold characters
    dsimp only
    split
    · exact .goesOn _ (.intro _ _ _ hscopes)
    · split
      · split
        · exact .goesOn _ (.intro _ _ _ hscopes)
        · exact .stops _ _
      · cases validator with
        | none => exact .goesOn _ (.intro _ _ _ hscopes)
        | some v => exact .goesOn _ (.intro _ _ _ hscopes)

theorem orFail_alike {α : Type} {f g : α → Outcome} (z : Except ReadFailure α)
    (h : ∀ a, AlikeOutcomes (f a) (g a)) : AlikeOutcomes (orFail z f) (orFail z g) := by
  cases z with
  | error e => exact .stops _ _
  | ok a => exact h a

theorem step_alike [Text.Decoders] (h : r.Alike r') (x : Lexeme) :
    AlikeOutcomes (r.step schema origin x) (r'.step schema origin x) := by
  unfold step
  split
  · exact orFail_alike _ fun _ => openElement_alike h _ _ rfl rfl fun _ _ => rfl
  · exact orFail_alike _ fun _ => closeElement_alike h _ _
  · exact orFail_alike _ (characters_alike h _)
  · exact orFail_alike _ (characters_alike h _)
  · exact orFail_alike _ fun _ => .goesOn _ h
  · exact orFail_alike _ fun _ => .goesOn _ h
  · exact .goesOn _ h
  · exact .goesOn _ h

variable {position : Nat} {fault : Option LexFault}

theorem run_cons_alike [Text.Decoders] {lexemes : List Lexeme}
    (h : AlikeOutcomes (r.step schema origin x) (r'.step schema origin y))
    (hrest : ∀ {s s' : Reading}, s.Alike s' →
      run schema origin position fault s lexemes = run schema origin position fault s' lexemes) :
    run schema origin position fault r (x :: lexemes) =
      run schema origin position fault r' (y :: lexemes) := by
  rw [run, run]
  generalize r.step schema origin x = o at h ⊢
  generalize r'.step schema origin y = o' at h ⊢
  cases h with
  | stops items failure => rfl
  | goesOn items hnext =>
    dsimp only
    rw [hrest hnext]

/-- Readings that are alike go on in the same way, to the end. -/
theorem run_alike [Text.Decoders] (h : r.Alike r') (lexemes : List Lexeme) :
    run schema origin position fault r lexemes = run schema origin position fault r' lexemes := by
  induction lexemes generalizing r r' with
  | nil =>
    have hfinish : r.finish position fault = r'.finish position fault := by
      cases h
      cases fault <;> rfl
    rw [run, run, hfinish]
  | cons x lexemes ih => exact run_cons_alike (step_alike h x) ih

/-- One piece can stand for another one that does the same to every reading. -/
theorem run_replace [Text.Decoders]
    (h : ∀ r : Reading, AlikeOutcomes (r.step schema origin x) (r.step schema origin y))
    (before after : List Lexeme) :
    run schema origin position fault r (before ++ x :: after) =
      run schema origin position fault r (before ++ y :: after) := by
  induction before generalizing r with
  | nil => exact run_cons_alike (h r) fun halike => run_alike halike after
  | cons first before ih =>
    rw [List.cons_append, List.cons_append, run, run]
    dsimp only
    split
    · rfl
    · rw [ih]

/-! ## Tags that fail -/

theorem Breaks.exists_stop {o : Outcome} (h : Breaks r o) :
    ∃ failure, o.onward = .stop failure := by
  cases h with
  | fails e => exact ⟨some e, rfl⟩
  | fatal position documentFault => exact ⟨none, rfl⟩

theorem Breaks.fails_run {o : Outcome} {failure : Option ReadFailure} (h : Breaks r o)
    (hstop : o.onward = .stop failure) : Transcript.Fails ⟨o.items, failure⟩ := by
  cases h with
  | fails e =>
    cases hstop
    exact .inl (Option.some_ne_none e)
  | fatal position documentFault => exact .inr ⟨_, List.mem_cons_self, rfl⟩

/-- Behind a piece that no reading gets over nothing is told any more. What is told before it is
told of everything that begins in the same way. -/
theorem run_fails [Text.Decoders] (h : ∀ r : Reading, Breaks r (r.step schema origin x))
    (position : Nat) (fault : Option LexFault) (r : Reading) (before after : List Lexeme) :
    (run schema origin position fault r (before ++ x :: after)).Fails ∧
      ∀ more position' fault',
        eventsOf (run schema origin position fault r (before ++ x :: after)).items <+:
          eventsOf (run schema origin position' fault' r (before ++ more)).items := by
  induction before generalizing r with
  | nil =>
    have hbreaks : Breaks r (r.step schema origin x) := h r
    obtain ⟨failure, hstop⟩ := hbreaks.exists_stop
    have hrun : run schema origin position fault r (x :: after) =
        ⟨(r.step schema origin x).items, failure⟩ := by
      rw [run, hstop]
    rw [List.nil_append, hrun, hbreaks.eventsOf_eq_nil]
    exact ⟨hbreaks.fails_run hstop, fun _ _ _ => List.nil_prefix⟩
  | cons first before ih =>
    have hstride : Stride r (r.step schema origin first) := step_stride first
    simp only [List.cons_append, run]
    cases honward : (r.step schema origin first).onward with
    | stop failure =>
      have hbreaks := hstride.breaks_of_stop honward
      exact ⟨hbreaks.fails_run honward, fun _ _ _ => List.prefix_refl _⟩
    | «continue» r' =>
      obtain ⟨hfails, htold⟩ := ih r'
      refine ⟨hfails.behind _, fun more position' fault' => ?_⟩
      rw [eventsOf_append, eventsOf_append]
      exact (List.prefix_append_right_inj _).mpr (htold more position' fault')

/-! ## Names in tags -/

def IsStartTag (x : Lexeme) : Prop := ∃ content nameLength, x.piece = .startTag content nameLength

/-- The piece is a start tag with this name. -/
def ElementNamed [Text.Decoders] (x : Lexeme) (name : String) : Prop :=
  ∃ content nameLength, x.piece = .startTag content nameLength ∧
    x.charset.decode? (content.take nameLength) = some name

/-- The piece is a start tag, and one of its attributes has this name. Declarations count as
attributes. -/
def AttributeNamed [Text.Decoders] (x : Lexeme) (name : String) : Prop :=
  ∃ content nameLength, x.piece = .startTag content nameLength ∧
    ∃ raw ∈ (readAttributes content nameLength).1, x.charset.decode? raw.key = some name

/-- What an attribute can be, by its key. -/
inductive Keyed (key : String) : WrittenAttribute → Prop
  | defaultSpace (uri : String) : key = "xmlns" → Keyed key (.declaration ⟨none, uri⟩)
  | declares (p uri : String) : key = "xmlns:" ++ p → Keyed key (.declaration ⟨some p, uri⟩)
  | plain (value : String) : (∀ p, key ≠ "xmlns:" ++ p) → Keyed key (.plain key value)

variable {name key : String} {attributes : List WrittenAttribute}

theorem ReadsAs.unique [Text.Decoders] {name' : String} {attributes' : List WrittenAttribute}
    (h : ReadsAs x name attributes) (h' : ReadsAs x name' attributes') :
    name = name' ∧ attributes = attributes' := by
  obtain ⟨content, n, hpiece, hname, hwritten⟩ := h
  obtain ⟨content', n', hpiece', hname', hwritten'⟩ := h'
  rw [hpiece] at hpiece'
  cases hpiece'
  rw [hname] at hname'
  rw [hwritten] at hwritten'
  exact ⟨Except.ok.inj hname', Except.ok.inj hwritten'⟩

theorem ElementNamed.isStartTag [Text.Decoders] (h : ElementNamed x name) : IsStartTag x := by
  obtain ⟨content, n, hpiece, -⟩ := h
  exact ⟨content, n, hpiece⟩

theorem AttributeNamed.isStartTag [Text.Decoders] (h : AttributeNamed x name) : IsStartTag x := by
  obtain ⟨content, n, hpiece, -⟩ := h
  exact ⟨content, n, hpiece⟩

theorem ElementNamed.eq_of_readsAs [Text.Decoders] (h : ElementNamed x key)
    (hreads : ReadsAs x name attributes) :
    key = name := by
  obtain ⟨content, n, hpiece, hkey⟩ := h
  obtain ⟨content', n', hpiece', hname, -⟩ := hreads
  rw [hpiece] at hpiece'
  cases hpiece'
  rw [decode?_of_decodeName hname] at hkey
  exact (Option.some.inj hkey).symm

theorem declaredPrefix?_eq_some_iff {p : String} :
    declaredPrefix? key = some p ↔ key = "xmlns:" ++ p := by
  unfold declaredPrefix?
  dsimp only
  constructor
  · intro h
    split at h
    · next hbegins =>
      obtain ⟨rest, hrest⟩ := List.isPrefixOf_iff_prefix.mp hbegins
      rw [← hrest, List.drop_left] at h
      cases h
      apply String.toList_injective
      rw [← hrest, String.toList_append, String.toList_ofList, String.toList_ofList]
    · cases h
  · rintro rfl
    have hbegins : "xmlns:".toList.isPrefixOf ("xmlns:" ++ p).toList = true :=
      List.isPrefixOf_iff_prefix.mpr ⟨p.toList, by rw [String.toList_append]⟩
    rw [if_pos hbegins, String.toList_append, List.drop_left, String.ofList_toList]

theorem keyed_of_writtenAttribute [Text.Decoders] {raw : RawAttribute} {a : WrittenAttribute}
    (hkey : x.charset.decode? raw.key = some key) (h : writtenAttribute x raw = .ok a) :
    Keyed key a := by
  obtain ⟨key', hkey', hrest⟩ := bind_ok h
  obtain ⟨value, -, hkind⟩ := bind_ok hrest
  rw [decode?_of_decodeName hkey'] at hkey
  cases hkey
  split at hkind
  · next hxmlns =>
    cases hkind
    exact .defaultSpace value hxmlns
  · split at hkind
    · next p hp =>
      cases hkind
      exact .declares p value (declaredPrefix?_eq_some_iff.mp hp)
    · next hnone =>
      cases hkind
      refine .plain value fun p hp => ?_
      rw [declaredPrefix?_eq_some_iff.mpr hp] at hnone
      cases hnone

theorem exists_of_forall₂ {α β : Type} {related : α → β → Prop} {as : List α} {bs : List β}
    (h : List.Forall₂ related as bs) {a : α} (ha : a ∈ as) : ∃ b ∈ bs, related a b := by
  induction h with
  | nil => cases ha
  | cons hfirst _ ih =>
    rcases List.mem_cons.mp ha with rfl | ha
    · exact ⟨_, List.mem_cons_self, hfirst⟩
    · obtain ⟨b, hb, hrelated⟩ := ih ha
      exact ⟨b, List.mem_cons_of_mem _ hb, hrelated⟩

theorem AttributeNamed.exists_keyed [Text.Decoders] (h : AttributeNamed x key)
    (hreads : ReadsAs x name attributes) : ∃ a ∈ attributes, Keyed key a := by
  obtain ⟨content, n, hpiece, raw, hraw, hkey⟩ := h
  obtain ⟨content', n', hpiece', -, hwritten⟩ := hreads
  rw [hpiece] at hpiece'
  cases hpiece'
  unfold writtenAttributes at hwritten
  dsimp only at hwritten
  obtain ⟨attributes', hmap, hrest⟩ := bind_ok hwritten
  split at hrest
  · cases hrest
  · cases hrest
    obtain ⟨a, ha, hattribute⟩ := exists_of_forall₂ (forall₂_of_mapM hmap) hraw
    exact ⟨a, ha, keyed_of_writtenAttribute hkey hattribute⟩

/-- A malformed name that does not begin as a declaration is that of an attribute. -/
theorem AttributeNamed.exists_plain [Text.Decoders] (h : AttributeNamed x key)
    (hmalformed : Malformed key)
    (hdeclares : ∀ p, key ≠ "xmlns:" ++ p) (hreads : ReadsAs x name attributes) :
    ∃ value, (key, value) ∈ plainOf attributes := by
  obtain ⟨a, ha, hkeyed⟩ := h.exists_keyed hreads
  cases hkeyed with
  | defaultSpace uri hxmlns =>
    subst hxmlns
    exact absurd hmalformed.1 (by decide)
  | declares p uri hp => exact absurd hp (hdeclares p)
  | plain value _ => exact ⟨value, List.mem_filterMap.mpr ⟨_, ha, rfl⟩⟩

theorem AttributeNamed.exists_declaration [Text.Decoders] {p : String}
    (h : AttributeNamed x ("xmlns:" ++ p)) (hreads : ReadsAs x name attributes) :
    ∃ front uri back, attributes = front ++ .declaration ⟨some p, uri⟩ :: back := by
  obtain ⟨a, ha, hkeyed⟩ := h.exists_keyed hreads
  obtain ⟨front, back, rfl⟩ := List.append_of_mem ha
  cases hkeyed with
  | defaultSpace uri hxmlns =>
    have hlength := congrArg (fun s : String => s.toList.length) hxmlns
    simp at hlength
  | declares p' uri hp =>
    obtain rfl := (String.append_right_inj "xmlns:").mp hp
    exact ⟨front, uri, back, rfl⟩
  | plain value hplain => exact absurd rfl (hplain p)

/-! ## What tags do to readings -/

theorem openElement_breaks (position : Nat)
    (h : Namespace.Lawful (declarationsOf attributes) →
      ∀ scopes found, resolve scopes name (plainOf attributes) ≠ .ok found) :
    Breaks r (openElement schema r position name attributes) := by
  unfold openElement
  split
  · exact .fatal position _
  · split
    · exact .fatal position _
    · next scopes henter =>
      split
      · exact .fatal position _
      · next hresolve =>
        exact absurd hresolve (h (Namespace.Scopes.lawful_of_enter henter).1 scopes _)

theorem orFail_breaks {α : Type} {z : Except ReadFailure α} {f : α → Outcome}
    (h : ∀ a, z = .ok a → Breaks r (f a)) : Breaks r (orFail z f) := by
  cases z with
  | error e => exact .fails e
  | ok a => exact h a rfl

/-- No reading gets over a start tag that cannot be taken apart, or has something in it that is
refused in all scopes. -/
theorem step_breaks [Text.Decoders] (htag : IsStartTag x)
    (h : ∀ name attributes, ReadsAs x name attributes →
      Namespace.Lawful (declarationsOf attributes) →
      ∀ scopes found, resolve scopes name (plainOf attributes) ≠ .ok found) (r : Reading) :
    Breaks r (r.step schema origin x) := by
  obtain ⟨content, n, hpiece⟩ := htag
  rw [step, hpiece]
  refine orFail_breaks ?_
  rintro ⟨name, attributes⟩ hread
  obtain ⟨_, -, hread⟩ := bind_ok hread
  obtain ⟨_, hname, hread⟩ := bind_ok hread
  obtain ⟨_, hwritten, hread⟩ := bind_ok hread
  cases hread
  exact openElement_breaks _ (h name attributes ⟨content, n, hpiece, hname, hwritten⟩)

theorem not_malformed_of_resolve {scopes : Namespace.Scopes} {plain : List (String × String)}
    {found : QualifiedName × Attributes} (h : resolve scopes name plain = .ok found) :
    ¬ Malformed name ∧ ∀ key value, (key, value) ∈ plain → ¬ Malformed key := by
  obtain ⟨q, hname, hrest⟩ := bind_ok h
  obtain ⟨resolved, hmap, -⟩ := bind_ok hrest
  refine ⟨Namespace.Scopes.not_malformed_of_resolve hname, fun key value hmem => ?_⟩
  obtain ⟨a, -, hattribute⟩ := exists_of_forall₂ (forall₂_of_mapM hmap) hmem
  obtain ⟨q', hattr, -⟩ := bind_ok hattribute
  exact Namespace.Scopes.not_malformed_of_resolve hattr

theorem step_of_readsAs [Text.Decoders] (h : ReadsAs x name attributes) (r : Reading) :
    r.step schema origin x = orFail (checkClosed origin x) fun _ =>
      openElement schema r x.position name attributes := by
  obtain ⟨content, n, hpiece, hname, hwritten⟩ := h
  rw [step, hpiece]
  dsimp only
  rw [hname, hwritten]
  cases checkClosed origin x <;> rfl

theorem declarationsOf_append (front back : List WrittenAttribute) (d : Namespace.Declaration) :
    declarationsOf (front ++ .declaration d :: back) =
      declarationsOf front ++ d :: declarationsOf back := by
  simp [declarationsOf]

/-- A tag with a lawful idle declaration does the same to every reading as one without it. -/
theorem step_alike_idle [Text.Decoders] {d : Namespace.Declaration}
    {front back : List WrittenAttribute}
    (hidle : d.Idle) (hlawful : d.Lawful) (hx : ReadsAs x name (front ++ .declaration d :: back))
    (hy : ReadsAs y name (front ++ back)) (hposition : y.position = x.position)
    (hsees : origin.sees y = origin.sees x) (r : Reading) :
    AlikeOutcomes (r.step schema origin x) (r.step schema origin y) := by
  have hclosed : checkClosed origin x = checkClosed origin y := by
    rw [checkClosed, checkClosed, hposition, hsees]
  have hwithout : declarationsOf (front ++ back) = declarationsOf front ++ declarationsOf back :=
    List.filterMap_append
  rw [step_of_readsAs hx, step_of_readsAs hy, hclosed, hposition]
  refine orFail_alike _ fun _ => openElement_alike (.refl r) _ _ ?_ ?_ ?_
  · simp [plainOf]
  · rw [declarationsOf_append, hwithout]
    exact Namespace.forM_check_lawful hlawful _ _
  · rw [declarationsOf_append, hwithout]
    exact Namespace.sameFound_idle hidle _ _

end Reading

/-! ## Readers -/

namespace DocumentReader

open Reading (IsStartTag ElementNamed AttributeNamed ReadsAs)

variable {r : DocumentReader} {input : Input} {origin : Origin} {lexing : Lexing}

/-- Parsing fails, whoever listens, and of what is behind the pieces `before` nothing is handed
over: the same events are told of every document that begins with these pieces. -/
def FailsBehind [Text.Decoders] (r : DocumentReader) (input : Input) (origin : Origin)
    (before : List Lexeme) : Prop :=
  ∀ (P C : Type) (policy : Policy P) (receiver : Receiver C) (p : P) (c : C),
    (∃ e, (r.parse input policy receiver p c).1 = .error e) ∧
      ∀ more position fault, eventsOf (r.handed input policy receiver p c) <+:
        eventsOf (transcriptOf r.schema origin ⟨before ++ more, position, fault⟩).items

theorem failsBehind_of_breaks [Text.Decoders] {before after : List Lexeme} {x : Lexeme}
    (hlexing : r.lexing input = .ok (origin, lexing))
    (hlexemes : lexing.lexemes = before ++ x :: after)
    (h : ∀ reading : Reading, Reading.Breaks reading
      (reading.step (r.schema.getD .empty) origin x)) :
    r.FailsBehind input origin before := by
  intro P C policy receiver p c
  have htranscript := transcript_of_lexing hlexing
  obtain ⟨hfails, htold⟩ := Reading.run_fails h lexing.position lexing.fault
    (.start r.schema.isSome) before after
  rw [← hlexemes] at hfails htold
  refine ⟨?_, fun more position fault => ?_⟩
  · rw [parse_of_transcript htranscript]
    exact (hfails.behind [.event .startDocument]).deliver policy receiver p c
  · rw [handed_of_transcript htranscript]
    have hhanded : eventsOf (ScopedXml.handed policy receiver p c
        (transcriptOf r.schema origin lexing).items) <+:
        eventsOf (transcriptOf r.schema origin lexing).items := (handed_isPrefix _).filterMap _
    exact hhanded.trans ((List.prefix_cons_inj Event.startDocument).mpr
      (htold more position fault))

/-- **Malformed names.** Behind whatever pieces a start tag stands: it fails, whoever listens, if it
cannot be taken apart, if its name is malformed, or if the name of an attribute is malformed and
does not begin with `xmlns:`. An attribute whose name begins so is a declaration. If that name is
malformed, the tag fails on an unlawful declaration only: with a lawful one the document is read as
if the tag had no such attribute. -/
theorem malformed_fails_or_idle [Text.Decoders] (r : DocumentReader) {input : Input}
    {origin : Origin} {lexing : Lexing} {before after : List Lexeme} {x : Lexeme}
    (hlexing : r.lexing input = .ok (origin, lexing))
    (hlexemes : lexing.lexemes = before ++ x :: after) :
    (IsStartTag x → (∀ name attributes, ¬ ReadsAs x name attributes) →
      r.FailsBehind input origin before) ∧
    (∀ name, ElementNamed x name → Malformed name → r.FailsBehind input origin before) ∧
    (∀ name, AttributeNamed x name → Malformed name → (∀ p, name ≠ "xmlns:" ++ p) →
      r.FailsBehind input origin before) ∧
    ∀ p, AttributeNamed x ("xmlns:" ++ p) → Malformed ("xmlns:" ++ p) →
      ∀ name attributes, ReadsAs x name attributes →
        ∃ front uri back, attributes = front ++ .declaration ⟨some p, uri⟩ :: back ∧
          (¬ Namespace.Declaration.Lawful ⟨some p, uri⟩ → r.FailsBehind input origin before) ∧
          (Namespace.Declaration.Lawful ⟨some p, uri⟩ →
            ∀ y, ReadsAs y name (front ++ back) → y.position = x.position →
              origin.sees y = origin.sees x →
              r.transcript input =
                .ok (transcriptOf r.schema origin
                  { lexing with lexemes := before ++ y :: after })) := by
  have hfails : IsStartTag x →
      (∀ name attributes, ReadsAs x name attributes →
        Namespace.Lawful (Reading.declarationsOf attributes) →
        ∀ scopes found, Reading.resolve scopes name (Reading.plainOf attributes) ≠ .ok found) →
      r.FailsBehind input origin before :=
    fun htag h => failsBehind_of_breaks hlexing hlexemes (Reading.step_breaks htag h)
  refine ⟨?apart, ?element, ?keyed, ?declared⟩
  case apart =>
    intro htag hnone
    exact hfails htag fun name attributes hreads => absurd hreads (hnone name attributes)
  case element =>
    intro name hnamed hmalformed
    refine hfails hnamed.isStartTag fun name' attributes hreads _ scopes found hfound => ?_
    obtain rfl := hnamed.eq_of_readsAs hreads
    exact (Reading.not_malformed_of_resolve hfound).1 hmalformed
  case keyed =>
    intro key hnamed hmalformed hdeclares
    refine hfails hnamed.isStartTag fun name attributes hreads _ scopes found hfound => ?_
    obtain ⟨value, hmem⟩ := hnamed.exists_plain hmalformed hdeclares hreads
    exact (Reading.not_malformed_of_resolve hfound).2 key value hmem hmalformed
  case declared =>
    intro p hnamed hmalformed name attributes hreads
    obtain ⟨front, uri, back, rfl⟩ := hnamed.exists_declaration hreads
    refine ⟨front, uri, back, rfl, ?unlawful, ?idle⟩
    case unlawful =>
      intro hunlawful
      refine hfails hnamed.isStartTag fun name' attributes' hreads' hlawful => ?_
      obtain ⟨-, rfl⟩ := hreads'.unique hreads
      rw [Reading.declarationsOf_append] at hlawful
      exact absurd (hlawful _ (List.mem_append_right _ List.mem_cons_self)) hunlawful
    case idle =>
      intro hlawful y hy hposition hsees
      have hidle : Namespace.Declaration.Idle ⟨some p, uri⟩ := fun hask =>
        Namespace.malformed_declaration_iff.mp hmalformed (hask p rfl)
      rw [transcript_of_lexing hlexing, transcriptOf, hlexemes,
        Reading.run_replace (Reading.step_alike_idle hidle hlawful hreads hy hposition hsees)]
      rfl

/-- A start tag of one byte in its name. -/
def shortTag (content : String) (position : Nat) : Lexeme :=
  ⟨.startTag (Text.Utf8.encode content) 1, position, some 62, .utf8⟩

/-- The outer tag is read as if it declared nothing, and the inner one fails. -/
theorem malformed_fails_or_idle_nested :
    let r : DocumentReader := ⟨none, .standard⟩
    let input : Input := .ofText "<b xmlns:p:q='u'><a p:q:r='v'/></b>"
    let ends : List Lexeme :=
      [⟨.endTag [97], 31, some 62, .utf8⟩, ⟨.endTag [98], 35, some 62, .utf8⟩]
    ∃ origin lexing, r.lexing input = .ok (origin, lexing) ∧
      r.FailsBehind input origin [shortTag "b xmlns:p:q='u'" 17] ∧
      r.transcript input = .ok (transcriptOf none origin
        { lexing with lexemes := shortTag "b" 17 :: shortTag "a p:q:r='v'" 31 :: ends }) := by
  intro r input ends
  have hlexing : ∃ origin lexing, r.lexing input = .ok (origin, lexing) ∧
      lexing.lexemes = shortTag "b xmlns:p:q='u'" 17 :: shortTag "a p:q:r='v'" 31 :: ends := by
    refine ⟨_, _, rfl, ?_⟩
    decide +kernel
  obtain ⟨origin, lexing, hlexing, hlexemes⟩ := hlexing
  have houter : lexing.lexemes =
      [] ++ shortTag "b xmlns:p:q='u'" 17 :: shortTag "a p:q:r='v'" 31 :: ends := hlexemes
  have hinner : lexing.lexemes =
      [shortTag "b xmlns:p:q='u'" 17] ++ shortTag "a p:q:r='v'" 31 :: ends := hlexemes
  obtain ⟨-, -, -, hdeclared⟩ := malformed_fails_or_idle r hlexing houter
  obtain ⟨-, -, hkeyed, -⟩ := malformed_fails_or_idle r hlexing hinner
  refine ⟨origin, lexing, hlexing, ?refused, ?idle⟩
  case refused =>
    have hnamed : AttributeNamed (shortTag "a p:q:r='v'" 31) "p:q:r" := by
      refine ⟨_, _, rfl, ⟨2, Text.Utf8.encode "p:q:r", [118]⟩, ?_, ?_⟩
      · decide +kernel
      · decide +kernel
    have hmalformed : Malformed "p:q:r" := Namespace.malformed_iff.mpr ⟨_, rfl⟩
    refine hkeyed "p:q:r" hnamed hmalformed fun p heq => ?_
    have hfirst := congrArg String.toList heq
    simp at hfirst
  case idle =>
    have hnamed : AttributeNamed (shortTag "b xmlns:p:q='u'" 17) "xmlns:p:q" := by
      refine ⟨_, _, rfl, ⟨2, Text.Utf8.encode "xmlns:p:q", [117]⟩, ?_, ?_⟩
      · decide +kernel
      · decide +kernel
    have hmalformed : Malformed "xmlns:p:q" := Namespace.malformed_iff.mpr ⟨_, rfl⟩
    have hreads : ReadsAs (shortTag "b xmlns:p:q='u'" 17) "b" [.declaration ⟨some "p:q", "u"⟩] := by
      refine ⟨_, _, rfl, ?_, ?_⟩
      · decide +kernel
      · decide +kernel
    have hwithout : ReadsAs (shortTag "b" 17) "b" [] := by
      refine ⟨_, _, rfl, ?_, ?_⟩
      · decide +kernel
      · decide +kernel
    obtain ⟨front, uri, back, hsplit, -, hidle⟩ :=
      hdeclared "p:q" hnamed hmalformed "b" _ hreads
    have hparts : front = [] ∧ uri = "u" ∧ back = [] := by
      cases front with
      | nil =>
        cases hsplit
        exact ⟨rfl, rfl, rfl⟩
      | cons a front => simp at hsplit
    obtain ⟨rfl, rfl, rfl⟩ := hparts
    have hlawful : Namespace.Declaration.Lawful ⟨some "p:q", "u"⟩ :=
      Namespace.Declaration.check_eq_ok_iff.mp (by decide)
    have hsees : origin.sees (shortTag "b" 17) = origin.sees (shortTag "b xmlns:p:q='u'" 17) := by
      cases origin <;> rfl
    exact hidle hlawful (shortTag "b" 17) hwithout rfl hsees

/-- An attribute with a malformed name that begins with `xmlns:` is accepted. -/
theorem not_malformed_fails :
    let r : DocumentReader := ⟨none, .standard⟩
    let input : Input := .ofText "<a xmlns:p:q='u'/>"
    let name : QualifiedName := ⟨none, none, "a"⟩
    (∃ origin lexing x after, r.lexing input = .ok (origin, lexing) ∧ lexing.lexemes = x :: after ∧
      AttributeNamed x "xmlns:p:q") ∧
    Malformed "xmlns:p:q" ∧
    (r.parse input Ledger.policy (EventRecord.receiver none) (.fresh .failFast) .empty).1 =
      .ok () ∧
    r.handed input Ledger.policy (EventRecord.receiver none) (.fresh .failFast) .empty =
      [.event .startDocument, .event (.startElement name .empty), .event (.endElement name),
        .event .endDocument] := by
  intro r input name
  refine ⟨⟨_, _, shortTag "a xmlns:p:q='u'" 18, [⟨.endTag [97], 18, some 62, .utf8⟩], rfl, ?_, ?_⟩,
    ?_, ?_, ?_⟩
  · decide +kernel
  · refine ⟨_, _, rfl, ⟨2, Text.Utf8.encode "xmlns:p:q", [117]⟩, ?_, ?_⟩
    · decide +kernel
    · decide +kernel
  · exact Namespace.malformed_iff.mpr ⟨_, rfl⟩
  · decide +kernel
  · decide +kernel

end DocumentReader

end ScopedXml
