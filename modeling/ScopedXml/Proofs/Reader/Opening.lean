import ScopedXml.Proofs.Markup.Running
import ScopedXml.Proofs.Reader.Delivery

/-!
# How inputs are opened

A source whose reads are never empty gives all of its bytes (`ByteSource.readAll_reads`). Opened
without a label it is decoded beforehand if its first fill shows UTF-16, and is a stream otherwise
(`Input.opened_reads`). Opened as UTF-8 it is the text that it encodes, without one byte order mark
(`Input.opened_declared`). The first bytes of a stream can announce its encoding (`Input.announced`).
-/

namespace ScopedXml

open Markup

variable {bytes head : List UInt8} {limit : Nat → Nat}

/-- The one read of a source that gives everything at once is not empty. -/
theorem ByteSource.ofBytes_nonempty (bytes : List UInt8) :
    bytes ≠ [] → ∀ n : Nat, 0 < (fun _ : Nat => bytes.length) n :=
  fun hbytes _ => List.length_pos_iff.mpr hbytes

theorem ByteSource.bytesOf_supply (hlimit : bytes ≠ [] → ∀ n, 0 < limit n)
    (failure : Option String) {size : Nat} (hsize : 0 < size) :
    bytesOf ((ByteSource.reads bytes limit failure).supply size).octets = bytes :=
  bytesOf_fills 0 fun hbytes n => Nat.lt_min.mpr ⟨hlimit hbytes n, hsize⟩

/-- Who asks for nothing gets nothing. -/
theorem ByteSource.octets_supply_zero (bytes : List UInt8) (limit : Nat → Nat)
    (failure : Option String) {size : Nat} (hsize : size = 0) :
    ((ByteSource.reads bytes limit failure).supply size).octets = [] := by
  rw [ByteSource.supply]
  dsimp only
  rw [Octet.fills, if_neg (by simp [hsize])]

theorem ByteSource.firstFill_reads (bytes : List UInt8) (limit : Nat → Nat)
    (failure : Option String) (size : Nat) :
    ((ByteSource.reads bytes limit failure).supply size).firstFill =
      bytes.take (min (limit 0) size) :=
  firstFill_fills _ 0 bytes _

/-- Bytes that fit into the buffer come in one fill. -/
theorem ByteSource.supply_ofBytes {size : Nat} (hsize : bytes.length ≤ size) :
    (ByteSource.ofBytes bytes).supply size = Supply.whole bytes := by
  rw [ByteSource.ofBytes, ByteSource.supply, ite_self, Supply.whole]
  rw [Nat.min_eq_left hsize]
  congr 1
  rw [Octet.fills]
  split
  · rw [List.take_length, List.drop_length, Octet.fills, if_neg (by simp), List.append_nil]
  · next hcond =>
    have hnil : bytes = [] := by
      by_contra hbytes
      exact hcond ⟨List.length_pos_iff.mpr hbytes, hbytes⟩
    rw [hnil]
    rfl

theorem ByteSource.failure_supply (bytes : List UInt8) (limit : Nat → Nat) (size : Nat) :
    ((ByteSource.reads bytes limit none).supply size).failure = none := by
  simp [ByteSource.supply]

theorem ByteSource.readAll_reads (hlimit : bytes ≠ [] → ∀ n, 0 < limit n) :
    (ByteSource.reads bytes limit none).readAll = .ok bytes := by
  rw [ByteSource.readAll, ByteSource.failure_supply]
  exact congrArg _ (ByteSource.bytesOf_supply hlimit none (Nat.succ_pos _))

namespace Input

/-- The byte order of UTF-16, if the first fill shows it. -/
def sniffed (source : ByteSource) (size : Nat) : Option Text.Utf16.Order :=
  utf16Order? (source.supply size).firstFill

/-- Four bytes show UTF-16, if anything does. -/
theorem utf16Order?_take (bytes : List UInt8) {n : Nat} (hn : 4 ≤ n) :
    utf16Order? (bytes.take n) = utf16Order? bytes := by
  obtain ⟨n, rfl⟩ := Nat.exists_eq_add_of_le' hn
  rcases bytes with _ | ⟨a, _ | ⟨b, _ | ⟨c, _ | ⟨d, rest⟩⟩⟩⟩
  · rfl
  · rfl
  · rfl
  · rfl
  · simp only [List.take_succ_cons]
    unfold utf16Order?
    split <;> split <;> simp_all

/-- The encoding that the first bytes announce: with a byte order mark, or as the `<?` of UTF-16. -/
def announced (head : List UInt8) : Option Text.Charset :=
  match utf16Order? head with
  | some order => some (.utf16 order)
  | none => (Text.Charset.ofMark? head).map (·.1)

theorem ofMark?_take (bytes : List UInt8) {n : Nat} (hn : 3 ≤ n) :
    (Text.Charset.ofMark? (bytes.take n)).map (·.1) = (Text.Charset.ofMark? bytes).map (·.1) := by
  obtain ⟨n, rfl⟩ := Nat.exists_eq_add_of_le' hn
  rcases bytes with _ | ⟨a, _ | ⟨b, _ | ⟨c, rest⟩⟩⟩
  · rfl
  · rfl
  · rfl
  · simp only [List.take_succ_cons]
    unfold Text.Charset.ofMark?
    split <;> split <;> simp_all

/-- Four bytes announce whatever is announced. -/
theorem announced_take (bytes : List UInt8) {n : Nat} (hn : 4 ≤ n) :
    announced (bytes.take n) = announced bytes := by
  rw [announced, announced, utf16Order?_take bytes hn, ofMark?_take bytes (by omega)]

/-- Bytes that do not show UTF-16 have the mark of UTF-8, or none. -/
theorem mark_of_plain (hplain : utf16Order? head = none) :
    Text.Charset.ofMark? head = none ∧ announced head = none ∨
      ∃ rest, Text.Charset.ofMark? head = some (.utf8, rest) ∧ head = [0xEF, 0xBB, 0xBF] ++ rest ∧
        announced head = some .utf8 := by
  rw [announced, hplain]
  cases hmark : Text.Charset.ofMark? head with
  | none => exact .inl ⟨rfl, rfl⟩
  | some found =>
    obtain ⟨charset, rest⟩ := found
    obtain ⟨mark, rfl, hmarks⟩ := Text.Utf8.ofMark?_eq_some hmark
    rcases hmarks with ⟨rfl, rfl⟩ | ⟨rfl, -⟩ | ⟨rfl, -⟩
    · exact .inr ⟨rest, rfl, rfl, rfl⟩
    · cases hplain
    · cases hplain

/-- What is announced as UTF-16 shows UTF-16. -/
theorem utf16Order?_of_announced {head' : List UInt8} (h : announced head = announced head') :
    utf16Order? head = utf16Order? head' := by
  have key : ∀ {head order}, announced head = some (.utf16 order) →
      utf16Order? head = some order := by
    intro head order h
    cases horder : utf16Order? head with
    | some order' =>
      rw [announced, horder] at h
      cases h
      rfl
    | none =>
      rcases mark_of_plain horder with ⟨-, hnone⟩ | ⟨rest, -, -, hutf8⟩
      · rw [hnone] at h
        cases h
      · rw [hutf8] at h
        cases h
  cases horder : utf16Order? head with
  | some order =>
    rw [announced, horder] at h
    exact (key h.symm).symm
  | none =>
    cases horder' : utf16Order? head' with
    | none => rfl
    | some order =>
      rw [announced.eq_1 head', horder'] at h
      rw [key h] at horder
      cases horder

/-- A buffer of four bytes shows what bytes that come at once announce. -/
theorem announced_ofBytes (bytes : List UInt8) {size : Nat} (hsize : 4 ≤ size) :
    announced ((ByteSource.ofBytes bytes).supply size).firstFill = announced bytes := by
  rw [ByteSource.ofBytes, ByteSource.firstFill_reads]
  by_cases hlength : bytes.length ≤ size
  · rw [Nat.min_eq_left hlength, List.take_length]
  · rw [Nat.min_eq_right (by omega)]
    exact announced_take bytes hsize

theorem sniffed_ofBytes (bytes : List UInt8) {size : Nat} (hsize : 4 ≤ size) :
    sniffed (.ofBytes bytes) size = utf16Order? bytes :=
  utf16Order?_of_announced (announced_ofBytes bytes hsize)

theorem opened_reads [Text.Decoders] (hlimit : bytes ≠ [] → ∀ n, 0 < limit n) (size : Nat) :
    (ofSource (.reads bytes limit none)).opened size =
      match sniffed (.reads bytes limit none) size with
      | some order => decoded (.utf16 order) bytes
      | none => .ok (.stream ((ByteSource.reads bytes limit none).supply size)) := by
  rw [opened, ofSource]
  dsimp only
  rw [ByteSource.failure_supply, ByteSource.readAll_reads hlimit]
  cases hoctets : ((ByteSource.reads bytes limit none).supply size).octets with
  | nil => rfl
  | cons o octets => rfl

theorem opened_ofBytes [Text.Decoders] (bytes : List UInt8) (size : Nat) :
    (ofSource (.ofBytes bytes)).opened size =
      match sniffed (.ofBytes bytes) size with
      | some order => decoded (.utf16 order) bytes
      | none => .ok (.stream ((ByteSource.ofBytes bytes).supply size)) :=
  opened_reads (ByteSource.ofBytes_nonempty bytes) size

end Input

namespace DocumentReader

theorem withoutMark_marked (t : String) : withoutMark ("\uFEFF" ++ t) = t := by
  simp [withoutMark]

theorem withoutMark_of_unmarked {s : String} (h : Text.Utf8.Unmarked s) :
    withoutMark s = s := by
  unfold withoutMark
  split
  · next cs hcs =>
    rw [Text.Utf8.Unmarked, hcs] at h
    exact absurd rfl h
  · rfl

variable [Text.Decoders] {r : DocumentReader} {input : Input}

theorem transcript_error {e : ReadFailure}
    (h : input.opened r.settings.bufferSize = .error e) :
    r.transcript input = .error e := by
  rw [transcript, h]
  rfl

theorem transcript_text {s : String}
    (h : input.opened r.settings.bufferSize = .ok (.text s)) :
    r.transcript input = .ok (r.transcriptOfText s) := by
  rw [transcript, h]
  rfl

theorem transcript_stream {supply : Supply}
    (h : input.opened r.settings.bufferSize = .ok (.stream supply)) :
    r.transcript input = .ok (r.transcriptOfStream supply) := by
  rw [transcript, h]
  rfl

/-- Two readers do the same with their inputs, whoever listens: the answer and what the listeners
have become, and all that was handed over. -/
def ReadsAlike (r : DocumentReader) (input : Input) (r' : DocumentReader)
    (input' : Input) : Prop :=
  ∀ (P C : Type) (policy : Policy P) (receiver : Receiver C) (p : P) (c : C),
    r.parse input policy receiver p c = r'.parse input' policy receiver p c ∧
      r.handed input policy receiver p c = r'.handed input' policy receiver p c

theorem readsAlike_of_transcript {r' : DocumentReader} {input' : Input}
    (h : r.transcript input = r'.transcript input') : r.ReadsAlike input r' input' := by
  intro P C policy receiver p c
  simp only [parse, handed, drive_eq, h]
  exact ⟨trivial, trivial⟩

end DocumentReader

/-- Bytes that encode a text are decoded to it, without one byte order mark. -/
theorem decodeMarked_encode [Text.Decoders] (s : String) :
    Text.Charset.decodeMarked .utf8 (Text.Utf8.encode s) = .ok (DocumentReader.withoutMark s) := by
  by_cases hmark : Text.Utf8.Unmarked s
  · rw [DocumentReader.withoutMark_of_unmarked hmark]
    simp [Text.Charset.decodeMarked, Text.Utf8.ofMark?_encode hmark, Text.Charset.decode?,
      Text.Utf8.decode?_encode]
  · obtain ⟨t, rfl⟩ := Text.Utf8.exists_of_marked hmark
    rw [DocumentReader.withoutMark_marked]
    simp [Text.Charset.decodeMarked, Text.Utf8.ofMark?_encode_marked, Text.Charset.decode?,
      Text.Utf8.decode?_encode]

/-- Bytes that encode a text have no byte order mark in front of what shows UTF-16. -/
theorem Input.decoded_utf16 [Text.Decoders] {s : String} {fill : List UInt8}
    {order : Text.Utf16.Order}
    (hbegins : fill <+: Text.Utf8.encode s) (h : utf16Order? fill = some order) :
    decoded (.utf16 order) (Text.Utf8.encode s) =
      match Text.Utf16.decode? order (Text.Utf8.encode s) with
      | some t => .ok (.text t)
      | none => .error (.undecodable 0
          ("input is not valid " ++ (Text.Charset.utf16 order).name)) := by
  have hmark : Text.Charset.ofMark? (Text.Utf8.encode s) = none := by
    apply Text.Utf8.ofMark?_encode
    by_contra hmarked
    obtain ⟨t, rfl⟩ := Text.Utf8.exists_of_marked hmarked
    obtain ⟨more, hmore⟩ := hbegins
    rw [Text.Utf8.encode_append, Text.Utf8.encode_mark] at hmore
    unfold utf16Order? at h
    split at h
    · simp at hmore
    · simp at hmore
    · simp at hmore
    · simp at hmore
    · cases h
  rw [decoded, Text.Charset.decodeMarked, hmark]
  simp only [Option.getD_none, Text.Charset.decode?]
  cases Text.Utf16.decode? order (Text.Utf8.encode s) <;> rfl

theorem Input.opened_declared [Text.Decoders] {label s : String}
    (hlabel : charset label = .ok .utf8)
    (hlimit : Text.Utf8.encode s ≠ [] → ∀ n, 0 < limit n) (size : Nat) :
    ((ofSource (.reads (Text.Utf8.encode s) limit none)).withEncoding label).opened size =
      .ok (.text (DocumentReader.withoutMark s)) := by
  have hopened : ((ofSource (.reads (Text.Utf8.encode s) limit none)).withEncoding label).opened
      size = (do
        let charset ← charset label
        decoded charset
          (← (ByteSource.reads (Text.Utf8.encode s) limit none).readAll)) := rfl
  rw [hopened, hlabel, ByteSource.readAll_reads hlimit]
  change decoded .utf8 (Text.Utf8.encode s) = _
  rw [decoded, decodeMarked_encode]

/-! ## The lexer at its start -/

theorem Markup.Lexer.begun_text {s : String} (h : Text.Utf8.Unmarked s) :
    (Lexer.ofSupply (.whole (Text.Utf8.encode s)) false).begun =
      ⟨.text, Octet.fill (Text.Utf8.encode s), 0, none, [], .utf8, false⟩ := by
  have hfill : Supply.firstFill ⟨Octet.fill (Text.Utf8.encode s), none⟩ = Text.Utf8.encode s :=
    firstFill_whole _
  simp [Lexer.begun, Lexer.skipMark, Lexer.ofSupply, Supply.whole, hfill,
    Text.Utf8.ofMark?_encode h]

/-- Bytes that do not show UTF-16 do not begin with its `<?`. -/
theorem Input.not_isPrefixOf_of_plain {head : List UInt8} (hplain : Input.utf16Order? head = none) :
    [0, 60, 0, 63].isPrefixOf head = false ∧ [60, 0, 63, 0].isPrefixOf head = false := by
  constructor <;>
  · rw [Bool.eq_false_iff]
    intro hbegins
    obtain ⟨rest, rfl⟩ := List.isPrefixOf_iff_prefix.mp hbegins
    cases hplain

/-- The number of bytes in a mark of UTF-8. -/
def markLength (announced : Option Text.Charset) : Nat := if announced.isSome then 3 else 0

/-- The lexer of a stream without the look of UTF-16, behind its start. -/
theorem Markup.Lexer.begun_ofSupply {supply : Supply}
    (hplain : Input.utf16Order? supply.firstFill = none) :
    (Lexer.ofSupply supply true).begun =
      ⟨.text, supply.octets.drop (markLength (Input.announced supply.firstFill)), 0, none, [],
        .utf8, true⟩ := by
  have hfill : Supply.firstFill ⟨supply.octets, none⟩ = supply.firstFill := rfl
  rcases Input.mark_of_plain hplain with ⟨hmark, hnone⟩ | ⟨rest, hmark, hhead, hutf8⟩
  · obtain ⟨hbig, hlittle⟩ := Input.not_isPrefixOf_of_plain hplain
    simp [Lexer.begun, Lexer.skipMark, Lexer.ofSupply, hfill, hmark, hnone, hbig, hlittle,
      markLength]
  · have hlength : supply.firstFill.length - rest.length = 3 := by
      rw [hhead, List.length_append]
      simp
    simp [Lexer.begun, Lexer.skipMark, Lexer.ofSupply, hfill, hmark, hutf8, hlength, markLength]

/-- The lexer of a stream of plain bytes, behind its start. -/
theorem Markup.Lexer.begun_stream {s : String} (hmark : Text.Utf8.Unmarked s)
    (hplain : Input.utf16Order? (Text.Utf8.encode s) = none) :
    (Lexer.ofSupply (.whole (Text.Utf8.encode s)) true).begun =
      ⟨.text, Octet.fill (Text.Utf8.encode s), 0, none, [], .utf8, true⟩ := by
  have hfill : (Supply.whole (Text.Utf8.encode s)).firstFill = Text.Utf8.encode s :=
    firstFill_whole _
  have hnone : Input.announced (Text.Utf8.encode s) = none := by
    rw [Input.announced, hplain, Text.Utf8.ofMark?_encode hmark]
    rfl
  rw [Lexer.begun_ofSupply (hfill.symm ▸ hplain), hfill, hnone]
  rfl

end ScopedXml
