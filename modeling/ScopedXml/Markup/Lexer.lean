import ScopedXml.Markup.Supply
import ScopedXml.Markup.Token

/-!
# Splitting bytes into markup

The lexer alternates between text, which ends before a `<`, and markup, which begins behind it. A
tag ends at the first `>` outside quotes, a comment at `-->`, a CDATA section at `]]>`, and
everything else at the next `>`. A tag that closes itself counts as a start tag and an end tag. End
tags are checked against the start tags as they are written.

* `Lexer.step`: one piece of markup, or the end.
* `Lexer.run`: the pieces up to the end; it stops since every step leaves less to do
  (`Lexer.weight_step_lt`).
-/

namespace ScopedXml.Markup

open Text

/-! ## Taking bytes -/

/-- The bytes before a closing byte, what follows it, and whether it was found at all. -/
structure Taken where
  content : List UInt8
  rest : List Octet
  found : Bool

/-- How many bytes were taken, the closing one included. -/
def Taken.size (t : Taken) : Nat := t.content.length + if t.found then 1 else 0

/-- The bytes before the first `stop`. -/
def takeUntil (stop : UInt8) : List Octet → Taken
  | [] => ⟨[], [], false⟩
  | o :: rest =>
    if o.byte = stop then ⟨[], rest, true⟩
    else
      let t := takeUntil stop rest
      { t with content := o.byte :: t.content }

/-- The open quote behind one more byte of a tag. -/
def quoteAfter (quote : Option UInt8) (b : UInt8) : Option UInt8 :=
  match quote with
  | some q => if b = q then none else some q
  | none => if b = 39 || b = 34 then some b else none

/-- The bytes before the first `>` outside quotes; `quote` is the open one. -/
def takeTag (quote : Option UInt8) : List Octet → Taken
  | [] => ⟨[], [], false⟩
  | o :: rest =>
    if quote = none ∧ o.byte = 62 then ⟨[], rest, true⟩
    else
      let t := takeTag (quoteAfter quote o.byte) rest
      { t with content := o.byte :: t.content }

theorem length_takeUntil (stop : UInt8) (octets : List Octet) :
    (takeUntil stop octets).size + (takeUntil stop octets).rest.length = octets.length := by
  induction octets with
  | nil => rfl
  | cons o rest ih =>
    simp only [takeUntil]
    split
    · simp [Taken.size]
      omega
    · simp only [Taken.size, List.length_cons] at ih ⊢
      omega

theorem length_takeTag (quote : Option UInt8) (octets : List Octet) :
    (takeTag quote octets).size + (takeTag quote octets).rest.length = octets.length := by
  induction octets generalizing quote with
  | nil => rfl
  | cons o rest ih =>
    have := ih (quoteAfter quote o.byte)
    simp only [takeTag]
    split
    · simp [Taken.size]
      omega
    · simp only [Taken.size, List.length_cons] at this ⊢
      omega

theorem length_rest_takeUntil_lt (stop : UInt8) {octets : List Octet} (h : octets ≠ []) :
    (takeUntil stop octets).rest.length < octets.length := by
  cases octets with
  | nil => exact absurd rfl h
  | cons o rest =>
    have := length_takeUntil stop rest
    simp only [takeUntil]
    split
    · simp
    · simp only [List.length_cons]
      omega

theorem length_rest_takeTag_lt (quote : Option UInt8) {octets : List Octet} (h : octets ≠ []) :
    (takeTag quote octets).rest.length < octets.length := by
  cases octets with
  | nil => exact absurd rfl h
  | cons o rest =>
    have := length_takeTag (quoteAfter quote o.byte) rest
    simp only [takeTag]
    split
    · simp
    · simp only [List.length_cons]
      omega

/-- The three kinds of markup that begin with `<!`. -/
inductive Bang
  | comment
  | cdata
  | doctype
deriving DecidableEq

def Bang.construct : Bang → String
  | comment => "Comment"
  | cdata => "CData"
  | doctype => "DOCTYPE"

/-- The kind that the byte behind `<!` announces. -/
def Bang.ofByte? (b : UInt8) : Option Bang :=
  if b = 91 then some .cdata
  else if b = 45 then some .comment
  else if b = 68 || b = 100 then some .doctype
  else none

/-- Whether a `>` ends the markup. `rev` is its content so far in reverse, `!` included, and `depth`
the number of `<` that are open within the current buffer fill. -/
def Bang.closes (kind : Bang) (rev : List UInt8) (depth : Nat) : Bool :=
  match kind with
  | .comment => 4 < rev.length && rev.take 2 == [45, 45]
  | .cdata => rev.take 2 == [93, 93]
  | .doctype => depth == 0

/-- The number of open `<` behind one more byte. -/
def depthAfter (depth : Nat) (b : UInt8) : Nat :=
  if b = 60 then depth + 1 else if b = 62 then depth - 1 else depth

/-- The content up to the `>` that ends the markup, and what follows, if it ends at all. -/
def takeBang (kind : Bang) (rev : List UInt8) (depth : Nat) :
    List Octet → Option (List UInt8 × List Octet)
  | [] => none
  | o :: rest =>
    let depth := if o.fresh then 0 else depth
    if o.byte = 62 ∧ kind.closes rev depth = true then some (rev.reverse, rest)
    else takeBang kind (o.byte :: rev) (depthAfter depth o.byte) rest

theorem length_takeBang_lt {kind : Bang} {rev content : List UInt8} {depth : Nat}
    {octets rest : List Octet} (h : takeBang kind rev depth octets = some (content, rest)) :
    rest.length < octets.length := by
  induction octets generalizing rev depth with
  | nil => simp [takeBang] at h
  | cons o tail ih =>
    simp only [takeBang] at h
    by_cases hc : o.byte = 62 ∧ kind.closes rev (if o.fresh then 0 else depth) = true
    · rw [if_pos hc] at h
      cases h
      simp
    · rw [if_neg hc] at h
      have := ih h
      simp only [List.length_cons]
      omega

/-- Whether `bytes` begin with the ASCII text `start`, in any case. -/
def startsWithAnyCase (start : String) (bytes : List UInt8) : Bool :=
  let lower (b : UInt8) : UInt8 := if 65 ≤ b && b ≤ 90 then b + 32 else b
  ((Utf8.encode start).map lower).isPrefixOf (bytes.map lower)

/-- The markup with this content, from `!` to the byte before `>`. -/
def Bang.piece (kind : Bang) (content : List UInt8) : Except LexFault Piece :=
  match kind with
  | .comment =>
    if [33, 45, 45].isPrefixOf content then .ok .comment
    else .error (.unexpectedEnd kind.construct)
  | .cdata =>
    if startsWithAnyCase "![CDATA[" content then
      .ok (.cdata ((content.drop 8).take (content.length - 10)))
    else .error (.unexpectedEnd kind.construct)
  | .doctype =>
    if startsWithAnyCase "!DOCTYPE" content then
      if (content.drop 8).all isMarkupBlank then .error .emptyDoctype else .ok .doctype
    else .error (.unexpectedEnd kind.construct)

/-! ## The state of the lexer -/

/-- What comes next. -/
inductive Phase
  /-- The very start, where a byte order mark may stand. -/
  | start
  /-- Text, or the `<` that ends it. -/
  | text
  /-- Markup, behind its `<`. -/
  | markup
  /-- The end of a tag that closed itself. -/
  | selfClosed
deriving DecidableEq

structure Lexer where
  phase : Phase
  octets : List Octet
  offset : Nat
  last : Option UInt8
  /-- Names of the open elements as written, the innermost first. -/
  openNames : List (List UInt8)
  charset : Charset
  /-- Whether an XML declaration may still change the encoding. -/
  refinable : Bool

/-- How a lexer is set up: whether blanks around text are dropped, and how its source ends. -/
structure LexerSetup where
  trimText : Bool
  failure : Option String

inductive Lexer.Step
  | token (lexeme : Lexeme) (next : Lexer)
  | done (position : Nat) (fault : Option LexFault)

namespace Lexer

/-- The lexer has come to the end of its bytes. -/
def atEnd (setup : LexerSetup) (l : Lexer) : Step :=
  .done l.offset (setup.failure.map .unreadable)

def emit (l : Lexer) (piece : Piece) (position : Nat) : Step :=
  .token ⟨piece, position, l.last, l.charset⟩ l

/-- The lexer behind some more bytes. -/
def advance (l : Lexer) (taken : Nat) (last : Option UInt8) (rest : List Octet) : Lexer :=
  { l with octets := rest, offset := l.offset + taken, last := last }

/-- The last byte of a piece that was cut off, or else of what came before. -/
def lastOf (l : Lexer) (content : List UInt8) : Option UInt8 :=
  match content.getLast? with
  | some b => some b
  | none => l.last

/-- Leave out a byte order mark, which is not counted, and take the encoding that the first bytes
announce. -/
def skipMark (s : Lexer) : Lexer :=
  let fill := Supply.firstFill ⟨s.octets, none⟩
  match Charset.ofMark? fill with
  | some (charset, rest) =>
    { s with
      octets := s.octets.drop (fill.length - rest.length)
      charset := if s.refinable then charset else s.charset }
  | none =>
    let charset :=
      if [0, 60, 0, 63].isPrefixOf fill then .utf16 .bigEndian
      else if [60, 0, 63, 0].isPrefixOf fill then .utf16 .littleEndian
      else s.charset
    { s with charset := if s.refinable then charset else s.charset }

/-! ## Markup -/

/-- Behind `<!`. -/
def bangStep (setup : LexerSetup) (l : Lexer) (rest : List Octet) : Step :=
  match rest with
  | [] =>
    .done l.offset (some (match setup.failure with
      | some m => .unreadable m
      | none => .unexpectedEnd "Bang"))
  | o :: _ =>
    match Bang.ofByte? o.byte with
    | none => .done l.offset (some (.unknownBang o.byte))
    | some kind =>
      match takeBang kind [33] 0 rest with
      | none =>
        .done l.offset (some (match setup.failure with
          | some m => .unreadable m
          | none => .unexpectedEnd kind.construct))
      | some (content, rest) =>
        let l := l.advance (content.length + 1) (some 62) rest
        match kind.piece content with
        | .ok piece => emit { l with phase := .text } piece l.offset
        | .error fault => .done l.offset (some fault)

/-- The name in an end tag, without the blanks behind it. -/
def endTagName (content : List UInt8) : List UInt8 :=
  if content.all isMarkupBlank then content
  else (content.reverse.dropWhile isMarkupBlank).reverse

/-- Behind `<`, at a `/`. -/
def endStep (setup : LexerSetup) (l : Lexer) : Step :=
  let taken := takeUntil 62 l.octets
  if !taken.found && setup.failure.isSome then l.atEnd setup
  else
    let content := taken.content
    let l := l.advance taken.size (if taken.found then some 62 else l.lastOf content) taken.rest
    let written := content.drop 1
    let name := endTagName written
    match l.openNames with
    | [] => .done (l.offset - content.length) (some (.endMismatch l.charset none written))
    | expected :: outer =>
      if name = expected then
        emit { l with phase := .text, openNames := outer } (.endTag name) l.offset
      else
        .done (l.offset - content.length)
          (some (.endMismatch l.charset (some expected) name))

/-- The value of the first attribute with this key in an XML declaration. -/
def declared? (key : String) (content : List UInt8) :
    Except AttributeFault (Option (List UInt8)) :=
  let (attributes, fault) := readAttributesFrom content.length none 3 (content.drop 3)
  match attributes.find? (·.key == Utf8.encode key), fault with
  | some a, _ => .ok (some a.value)
  | none, some fault => .error fault
  | none, none => .ok none

/-- The lexer behind an XML declaration: the first one with a known encoding settles it. -/
def refine (l : Lexer) (content : List UInt8) : Lexer :=
  if l.refinable then
    match declared? "encoding" content with
    | .ok (some label) =>
      match Charset.ofLabelBytes? label with
      | some charset => { l with charset := charset, refinable := false }
      | none => l
    | _ => l
  else l

/-- Behind `<`, at a `?`. -/
def questionStep (setup : LexerSetup) (l : Lexer) : Step :=
  let taken := takeUntil 62 l.octets
  if !taken.found && setup.failure.isSome then l.atEnd setup
  else
    let content := taken.content
    let l := l.advance taken.size (if taken.found then some 62 else l.lastOf content) taken.rest
    let l := { l with phase := .text }
    if 2 < content.length && content.getLast? == some 63 then
      let inner := (content.drop 1).dropLast
      if 5 < content.length && (Utf8.encode "xml").isPrefixOf inner
          && ((inner.drop 3).head?.any isMarkupBlank) then
        emit (l.refine inner) (.declaration inner) l.offset
      else emit l .instruction l.offset
    else .done (l.offset - content.length) (some (.unexpectedEnd "XmlDecl"))

/-- Behind `<`, at a start tag. A tag that the end of the input cuts off leaves the offset where
it was. -/
def startStep (setup : LexerSetup) (l : Lexer) : Step :=
  let taken := takeTag none l.octets
  if !taken.found && setup.failure.isSome then l.atEnd setup
  else
    let content := taken.content
    let last := if taken.found then some 62 else l.lastOf content
    let l := l.advance (if taken.found then taken.size else 0) last taken.rest
    let nameEnd := (content.takeWhile (!isMarkupBlank ·)).length
    if content.getLast? == some 47 then
      let nameLength := min nameEnd (content.length - 1)
      let name := content.take nameLength
      emit { l with phase := .selfClosed, openNames := name :: l.openNames }
        (.startTag content.dropLast nameLength) l.offset
    else
      let name := content.take nameEnd
      emit { l with phase := .text, openNames := name :: l.openNames }
        (.startTag content nameEnd) l.offset

/-- Behind a `<`. -/
def markupStep (setup : LexerSetup) (l : Lexer) : Step :=
  match l.octets with
  | [] => l.atEnd setup
  | o :: rest =>
    if o.byte = 33 then l.bangStep setup rest
    else if o.byte = 47 then l.endStep setup
    else if o.byte = 63 then l.questionStep setup
    else l.startStep setup

/-! ## Text -/

/-- Text without the blanks behind it, unless it is nothing but blanks. -/
def trimTextEnd (content : List UInt8) : List UInt8 :=
  if content.all isMarkupBlank then content
  else (content.reverse.dropWhile isMarkupBlank).reverse

/-- Text up to the next `<`, or the markup behind one that comes at once. The offset of text stands
before its `<`; text that runs to the end of the input is reported one byte short. -/
def textStep (setup : LexerSetup) (l : Lexer) : Step :=
  let blanks := if setup.trimText then l.octets.takeWhile (isMarkupBlank ·.byte) else []
  let l := l.advance blanks.length (l.lastOf (blanks.map (·.byte))) (l.octets.drop blanks.length)
  match l.octets with
  | [] => l.atEnd setup
  | o :: rest =>
    if o.byte = 60 then (l.advance 1 (some 60) rest).markupStep setup
    else
      let taken := takeUntil 60 l.octets
      if !taken.found && setup.failure.isSome then l.atEnd setup
      else
        let content := taken.content
        let last := if taken.found then some 60 else l.lastOf content
        let l := l.advance taken.size last taken.rest
        let shown := if setup.trimText then trimTextEnd content else content
        emit { l with phase := .markup } (.text shown) (l.offset - 1)

/-! ## Running -/

def step (setup : LexerSetup) (l : Lexer) : Step :=
  match l.phase with
  | .start => l.skipMark.textStep setup
  | .text => l.textStep setup
  | .markup => l.markupStep setup
  | .selfClosed =>
    match l.openNames with
    | [] => l.atEnd setup
    | name :: outer => emit { l with phase := .text, openNames := outer } (.endTag name) l.offset

/-- How much is left to do. -/
def weight (l : Lexer) : Nat :=
  2 * l.octets.length + if l.phase = .selfClosed then 1 else 0

theorem weight_le (l : Lexer) : l.weight ≤ 2 * l.octets.length + 1 := by
  unfold weight
  split <;> omega

/-- A lexer that leaves fewer bytes than `n` and no self-closed tag, or one with two fewer. -/
def Within (n : Nat) (s : Step) : Prop :=
  ∀ lexeme next, s = .token lexeme next → next.weight < 2 * n

theorem within_done (n : Nat) (p : Nat) (f : Option LexFault) : Within n (.done p f) := by
  intro _ _ h
  cases h

theorem within_emit {n : Nat} {l : Lexer} {m : Piece} {p : Nat} (h : l.weight < 2 * n) :
    Within n (l.emit m p) := by
  intro _ _ h'
  cases h'
  exact h

theorem Within.mono {n m : Nat} {s : Step} (h : Within n s) (hle : n ≤ m) : Within m s :=
  fun lexeme next hs => Nat.lt_of_lt_of_le (h lexeme next hs) (by omega)

theorem bangStep_within (setup : LexerSetup) (l : Lexer) (rest : List Octet) :
    Within rest.length (l.bangStep setup rest) := by
  unfold bangStep
  split
  · exact within_done _ _ _
  · split
    · exact within_done _ _ _
    · split
      · exact within_done _ _ _
      · next h =>
        have := length_takeBang_lt h
        dsimp only
        split
        · refine within_emit ?_
          simp only [weight, advance, reduceCtorEq, if_false]
          omega
        · exact within_done _ _ _

theorem endStep_within (setup : LexerSetup) {l : Lexer} (h : l.octets ≠ []) :
    Within l.octets.length (l.endStep setup) := by
  have := length_rest_takeUntil_lt 62 h
  unfold endStep
  dsimp only
  split
  · exact within_done _ _ _
  · split
    · exact within_done _ _ _
    · split
      · refine within_emit ?_
        simp only [weight, advance, reduceCtorEq, if_false]
        omega
      · exact within_done _ _ _

theorem octets_refine (l : Lexer) (content : List UInt8) :
    (l.refine content).octets = l.octets ∧ (l.refine content).phase = l.phase := by
  unfold refine
  split
  · split
    · split <;> exact ⟨rfl, rfl⟩
    · exact ⟨rfl, rfl⟩
  · exact ⟨rfl, rfl⟩

theorem questionStep_within (setup : LexerSetup) {l : Lexer} (h : l.octets ≠ []) :
    Within l.octets.length (l.questionStep setup) := by
  have := length_rest_takeUntil_lt 62 h
  unfold questionStep
  dsimp only
  split
  · exact within_done _ _ _
  · split
    · split
      · refine within_emit ?_
        rw [weight, (octets_refine _ _).1, (octets_refine _ _).2]
        simp only [advance, reduceCtorEq, if_false]
        omega
      · refine within_emit ?_
        simp only [weight, advance, reduceCtorEq, if_false]
        omega
    · exact within_done _ _ _

theorem startStep_within (setup : LexerSetup) {l : Lexer} (h : l.octets ≠ []) :
    Within l.octets.length (l.startStep setup) := by
  have := length_rest_takeTag_lt none h
  unfold startStep
  dsimp only
  split
  · exact within_done _ _ _
  · split <;>
    · refine within_emit (Nat.lt_of_le_of_lt (weight_le _) ?_)
      simp only [advance]
      omega

theorem markupStep_within (setup : LexerSetup) (l : Lexer) :
    Within l.octets.length (l.markupStep setup) := by
  unfold markupStep
  split
  · exact within_done _ _ _
  · next heq =>
    have h : l.octets ≠ [] := by simp [heq]
    split
    · exact (bangStep_within setup l _).mono (by simp [heq])
    · split
      · exact endStep_within setup h
      · split
        · exact questionStep_within setup h
        · exact startStep_within setup h

theorem textStep_within (setup : LexerSetup) (l : Lexer) :
    Within l.octets.length (l.textStep setup) := by
  unfold textStep
  dsimp only
  generalize (if setup.trimText = true then l.octets.takeWhile (isMarkupBlank ·.byte) else []) =
    blanks
  have hle : (l.octets.drop blanks.length).length ≤ l.octets.length := by
    simp only [List.length_drop]
    omega
  split
  · exact within_done _ _ _
  · next heq =>
    simp only [advance] at heq
    split
    · refine (markupStep_within setup _).mono ?_
      rw [heq] at hle
      simp only [advance, List.length_cons] at hle ⊢
      omega
    · have hne : l.octets.drop blanks.length ≠ [] := by simp [heq]
      have := length_rest_takeUntil_lt 60 hne
      split
      · exact within_done _ _ _
      · refine within_emit ?_
        simp only [weight, advance, reduceCtorEq, if_false]
        omega

theorem length_octets_skipMark_le (l : Lexer) : l.skipMark.octets.length ≤ l.octets.length := by
  unfold skipMark
  dsimp only
  split
  · simp
  · exact Nat.le_refl _

/-- Every piece of markup leaves less to do. -/
theorem weight_step_lt {setup : LexerSetup} {l next : Lexer} {lexeme : Lexeme}
    (h : l.step setup = .token lexeme next) : next.weight < l.weight := by
  have key : ∀ {s : Step}, Within l.octets.length s → s = .token lexeme next →
      next.weight < l.weight := by
    intro s hs he
    have := hs _ _ he
    unfold weight at this ⊢
    omega
  unfold step at h
  split at h
  · exact key ((textStep_within setup l.skipMark).mono (length_octets_skipMark_le l)) h
  · exact key (textStep_within setup l) h
  · exact key (markupStep_within setup l) h
  · next hp =>
    split at h
    · cases h
    · cases h
      simp [weight, hp]

/-- The pieces up to the end of the bytes. -/
def run (setup : LexerSetup) (l : Lexer) : Lexing :=
  match _h : l.step setup with
  | .done position fault => ⟨[], position, fault⟩
  | .token lexeme next =>
    let others := run setup next
    { others with lexemes := lexeme :: others.lexemes }
termination_by l.weight
decreasing_by exact weight_step_lt _h

/-- A lexer at the start of a supply. `refinable` when the encoding is still to be found. -/
def ofSupply (supply : Supply) (refinable : Bool) : Lexer :=
  ⟨.start, supply.octets, 0, none, [], .utf8, refinable⟩

end Lexer

/-- Split bytes whose encoding has to be found on the way. -/
def Supply.lex (supply : Supply) (trimText : Bool) : Lexing :=
  (Lexer.ofSupply supply true).run ⟨trimText, supply.failure⟩

/-- Split text that is decoded already. -/
def lexText (trimText : Bool) (s : String) : Lexing :=
  (Lexer.ofSupply (.whole (Utf8.encode s)) false).run ⟨trimText, none⟩

end ScopedXml.Markup
