import Mathlib
import ScopedXml.Proofs.Markup.Refilling
import ScopedXml.Proofs.Reader.Opening

/-!
# Short reads

A source may give its bytes in pieces of any size. `DocumentReader.reads_pieces_as_whole` says that
they are read as if they had come at once, under two conditions: the first piece announces the
encoding that all the bytes announce (four bytes always do, `Input.announced_take`), and no document
type declaration is broken within its brackets. A byte order mark that comes byte by byte is not
recognised (`DocumentReader.misses_split_mark`).
-/

namespace ScopedXml

open Markup Text

variable {bytes : List UInt8} {limit : Nat → Nat}

/-! ## Lexers of streams -/

/-- What is found in a stream is found without the marks of its fills. -/
theorem Markup.Supply.lex_plain {supply : Supply} (trimText : Bool)
    (hplain : Input.utf16Order? supply.firstFill = none) (hunbroken : Unbroken supply.octets) :
    supply.lex trimText =
      (⟨.text, (plain supply.octets).drop (markLength (Input.announced supply.firstFill)), 0, none,
        [], .utf8, true⟩ : Lexer).run ⟨trimText, supply.failure⟩ := by
  have hsteady : (Lexer.ofSupply supply true).begun.Steady := by
    refine ⟨Lexer.begun_ready _, ?_, fun h => by cases h⟩
    rw [Lexer.begun_ofSupply hplain]
    exact hunbroken.of_suffix (List.drop_suffix _ _)
  rw [Supply.lex, Lexer.run_begun _ rfl, ← Lexer.run_plain hsteady, Lexer.begun_ofSupply hplain,
    ← plain_drop]
  rfl

/-- Streams of the same bytes that announce the same have the same markup. -/
theorem Markup.Supply.lex_eq {supply supply' : Supply} (trimText : Bool)
    (hplain : Input.utf16Order? supply.firstFill = none)
    (hannounced : Input.announced supply.firstFill = Input.announced supply'.firstFill)
    (hbytes : bytesOf supply.octets = bytesOf supply'.octets)
    (hfailure : supply.failure = supply'.failure) (hunbroken : Unbroken supply.octets)
    (hunbroken' : Unbroken supply'.octets) : supply.lex trimText = supply'.lex trimText := by
  have hplain' : Input.utf16Order? supply'.firstFill = none :=
    Input.utf16Order?_of_announced hannounced ▸ hplain
  rw [Supply.lex_plain trimText hplain hunbroken, Supply.lex_plain trimText hplain' hunbroken',
    hannounced, hfailure, plain, plain, hbytes]

/-! ## Readers -/

namespace DocumentReader

/-- The same reader with the buffer of the standard settings. -/
def withStandardBuffer (r : DocumentReader) : DocumentReader :=
  { r with settings := { r.settings with bufferSize := ReaderSettings.standard.bufferSize } }

/-- **Short reads.** Bytes that come in pieces are read like the same bytes at once and with the
standard buffer, if the first piece announces the encoding that they announce, and no piece begins
within the brackets of a document type declaration. -/
theorem reads_pieces_as_whole [Text.Decoders] (r : DocumentReader) (hlimit : ∀ n, 0 < limit n)
    (hsize : 0 < r.settings.bufferSize)
    (hannounced : Input.announced (bytes.take (min (limit 0) r.settings.bufferSize)) =
      Input.announced bytes)
    (hpieces : Unbroken
      ((ByteSource.reads bytes limit none).supply r.settings.bufferSize).octets)
    (hwhole : Unbroken
      ((ByteSource.ofBytes bytes).supply ReaderSettings.standard.bufferSize).octets) :
    r.ReadsAlike (.ofSource (.reads bytes limit none))
      r.withStandardBuffer (.ofSource (.ofBytes bytes)) := by
  apply readsAlike_of_transcript
  have hnonempty := ByteSource.ofBytes_nonempty bytes
  have hlimit' : bytes ≠ [] → ∀ n, 0 < limit n := fun _ => hlimit
  have hopened := Input.opened_reads hlimit' r.settings.bufferSize
  have hopened' := Input.opened_ofBytes bytes ReaderSettings.standard.bufferSize
  have hfirst : Input.announced ((ByteSource.reads bytes limit none).supply
        r.settings.bufferSize).firstFill =
      Input.announced ((ByteSource.ofBytes bytes).supply
        ReaderSettings.standard.bufferSize).firstFill := by
    rw [ByteSource.firstFill_reads, hannounced, Input.announced_ofBytes bytes (by decide)]
  have horder := Input.utf16Order?_of_announced hfirst
  rw [Input.sniffed] at hopened hopened'
  rw [← horder] at hopened'
  cases hsniffed : Input.utf16Order? ((ByteSource.reads bytes limit none).supply
      r.settings.bufferSize).firstFill with
  | some order =>
    rw [hsniffed] at hopened hopened'
    rw [transcript, transcript, hopened]
    exact congrArg _ hopened'.symm
  | none =>
    rw [hsniffed] at hopened hopened'
    have hbytes := ByteSource.bytesOf_supply hlimit' none hsize
    have hbytes' := ByteSource.bytesOf_supply hnonempty none
      (by decide : 0 < ReaderSettings.standard.bufferSize)
    have hlex := Supply.lex_eq r.settings.trimText hsniffed hfirst (hbytes.trans hbytes'.symm)
      ((ByteSource.failure_supply ..).trans (ByteSource.failure_supply ..).symm) hpieces hwhole
    refine (transcript_stream hopened).trans (.trans ?_ (transcript_stream
      (r := r.withStandardBuffer) hopened').symm)
    rw [transcriptOfStream, transcriptOfStream, hlex]
    rfl

theorem reads_broken_declaration :
    (⟨none, ⟨64, false⟩⟩ : DocumentReader).ReadsAlike
      (.ofSource (.reads (Utf8.encode "\uFEFF<!DOCTYPE a [<!ENTITY b ''>]><a/>")
        (fun n => if n = 1 then 27 else 3) none))
      (⟨none, ⟨64, false⟩⟩ : DocumentReader).withStandardBuffer
      (.ofSource (.ofBytes (Utf8.encode "\uFEFF<!DOCTYPE a [<!ENTITY b ''>]><a/>"))) := by
  have hlimit : ∀ n : Nat, 0 < if n = 1 then 27 else 3 := by
    intro n
    split <;> decide
  have hfills : ((ByteSource.reads (Utf8.encode "\uFEFF<!DOCTYPE a [<!ENTITY b ''>]><a/>")
      (fun n => if n = 1 then 27 else 3) none).supply 64).octets =
        Octet.fill (Utf8.encode "\uFEFF") ++
          Octet.fill (Utf8.encode "<!DOCTYPE a [<!ENTITY b ''>") ++
          Octet.fill (Utf8.encode "]><") ++ Octet.fill (Utf8.encode "a/>") := by cbv
  have hpieces : Unbroken ((ByteSource.reads
      (Utf8.encode "\uFEFF<!DOCTYPE a [<!ENTITY b ''>]><a/>")
      (fun n => if n = 1 then 27 else 3) none).supply 64).octets := by
    rw [hfills]
    decide +kernel
  have hfits : (Utf8.encode "\uFEFF<!DOCTYPE a [<!ENTITY b ''>]><a/>").length ≤ 65536 := by decide
  have hwhole : Unbroken ((ByteSource.ofBytes
      (Utf8.encode "\uFEFF<!DOCTYPE a [<!ENTITY b ''>]><a/>")).supply 65536).octets := by
    rw [ByteSource.supply_ofBytes hfits]
    exact unbroken_fill (Utf8.encode "\uFEFF<!DOCTYPE a [<!ENTITY b ''>]><a/>")
  exact reads_pieces_as_whole ⟨none, ⟨64, false⟩⟩ hlimit (by decide) (by cbv) hpieces hwhole

/-- A byte order mark of UTF-16 that comes byte by byte is missed. -/
theorem misses_split_mark :
    ¬ (⟨none, .standard⟩ : DocumentReader).ReadsAlike
      (.ofSource (.reads [0xFF, 0xFE, 0x3C, 0, 0x61, 0, 0x2F, 0, 0x3E, 0] (fun _ => 1) none))
      (⟨none, .standard⟩ : DocumentReader).withStandardBuffer
      (.ofSource (.ofBytes [0xFF, 0xFE, 0x3C, 0, 0x61, 0, 0x2F, 0, 0x3E, 0])) := by
  intro halike
  have hanswer := congrArg Prod.fst
    (halike _ _ Ledger.policy (EventRecord.receiver none) ⟨.collecting, []⟩ .empty).1
  have hpieces : ((⟨none, .standard⟩ : DocumentReader).parse
      (.ofSource (.reads [0xFF, 0xFE, 0x3C, 0, 0x61, 0, 0x2F, 0, 0x3E, 0] (fun _ => 1) none))
      Ledger.policy (EventRecord.receiver none) ⟨.collecting, []⟩ .empty).1 =
        .error (.undecodable 2 "invalid byte sequence") := by cbv
  have hwhole : ((⟨none, .standard⟩ : DocumentReader).withStandardBuffer.parse
      (.ofSource (.ofBytes [0xFF, 0xFE, 0x3C, 0, 0x61, 0, 0x2F, 0, 0x3E, 0]))
      Ledger.policy (EventRecord.receiver none) ⟨.collecting, []⟩ .empty).1 = .ok () := by cbv
  rw [hpieces, hwhole] at hanswer
  cases hanswer

end DocumentReader

end ScopedXml
