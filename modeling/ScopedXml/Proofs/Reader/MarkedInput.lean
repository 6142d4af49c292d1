import ScopedXml.Proofs.Reader.Opening
import ScopedXml.Proofs.Text.Surrogates

/-!
# Inputs with a mark of UTF-16

Behind a byte order mark of UTF-16, an input is opened as the text that its bytes encode, whichever
label it has, and refused if they encode none (`Input.opened_marked_iff`). Only the one mark in
front is left out.
-/

namespace ScopedXml

open Text

/-- The byte order mark in this order. -/
def Text.Utf16.Order.mark : Utf16.Order → List UInt8
  | .littleEndian => [0xFF, 0xFE]
  | .bigEndian => [0xFE, 0xFF]

variable {order : Utf16.Order} {rest : List UInt8} {limit : Nat → Nat}

theorem Text.Charset.ofMark?_mark (order : Utf16.Order) (rest : List UInt8) :
    Charset.ofMark? (order.mark ++ rest) = some (.utf16 order, rest) := by
  cases order <;> rfl

/-- Two bytes show the mark. -/
theorem Input.utf16Order?_mark_take (order : Utf16.Order) (rest : List UInt8) {n : Nat}
    (hn : 2 ≤ n) : Input.utf16Order? ((order.mark ++ rest).take n) = some order := by
  obtain ⟨n, rfl⟩ := Nat.exists_eq_add_of_le' hn
  cases order <;> rfl

/-- Why bytes behind a mark are refused. -/
def Text.Utf16.Order.refusal (order : Utf16.Order) : ReadFailure :=
  .undecodable 0 ("input is not valid " ++ (Charset.utf16 order).name)

namespace Input

/-- The mark decides, whatever else the encoding is said to be. -/
theorem decoded_marked [Text.Decoders] (charset : Charset) (order : Utf16.Order)
    (rest : List UInt8) :
    decoded charset (order.mark ++ rest) =
      match Utf16.decode? order rest with
      | some s => .ok (.text s)
      | none => .error order.refusal := by
  rw [decoded, Charset.decodeMarked, Charset.ofMark?_mark]
  simp only [Option.getD_some, Charset.decode?]
  cases Utf16.decode? order rest <;> rfl

/-- How the encoding of an input with a mark may be left open or declared: without a label the first
read has to show the mark, and a label has to be known. -/
def Labelled (limit : Nat → Nat) (size : Nat) : Option String → Prop
  | none => 2 ≤ limit 0 ∧ 2 ≤ size
  | some label => ∃ charset, Input.charset label = .ok charset

theorem opened_marked [Text.Decoders] (hlimit : ∀ n, 0 < limit n) {size : Nat}
    {encoding : Option String}
    (hencoding : Labelled limit size encoding) (systemId : Option String) :
    (⟨.bytes (.reads (order.mark ++ rest) limit none) encoding, systemId⟩ : Input).opened size =
      match Utf16.decode? order rest with
      | some s => .ok (.text s)
      | none => .error order.refusal := by
  have hread : (ByteSource.reads (order.mark ++ rest) limit none).readAll =
      .ok (order.mark ++ rest) := ByteSource.readAll_reads fun _ => hlimit
  cases encoding with
  | none =>
    obtain ⟨hfirst, hsize⟩ := hencoding
    have hsniffed : sniffed (.reads (order.mark ++ rest) limit none) size = some order := by
      rw [sniffed, ByteSource.firstFill_reads]
      exact utf16Order?_mark_take order rest (Nat.le_min.mpr ⟨hfirst, hsize⟩)
    have hopened : (⟨.bytes (.reads (order.mark ++ rest) limit none) none, systemId⟩ : Input).opened
        size = decoded (.utf16 order) (order.mark ++ rest) := by
      refine (opened_reads (fun _ => hlimit) size).trans ?_
      rw [hsniffed]
    exact hopened.trans (decoded_marked (.utf16 order) order rest)
  | some label =>
    obtain ⟨charset, hcharset⟩ := hencoding
    rw [opened]
    dsimp only
    rw [hcharset, hread]
    exact decoded_marked charset order rest

/-- **Inputs with a mark of UTF-16.** Bytes behind a byte order mark are opened as a text exactly if
they are what the text is in UTF-16, and refused exactly if no text is encoded by them: if they are
odd in number, or hold a surrogate without its partner. -/
theorem opened_marked_iff [Text.Decoders] (order : Utf16.Order) (rest : List UInt8)
    (hlimit : ∀ n, 0 < limit n)
    {size : Nat} {encoding : Option String} (hencoding : Labelled limit size encoding)
    (systemId : Option String) :
    let input : Input := ⟨.bytes (.reads (order.mark ++ rest) limit none) encoding, systemId⟩
    (∀ s, input.opened size = .ok (.text s) ↔ rest = Utf16.encode order s) ∧
      (input.opened size = .error order.refusal ↔ ∀ s, rest ≠ Utf16.encode order s) ∧
      ((∀ s, rest ≠ Utf16.encode order s) ↔ rest.length % 2 = 1 ∨
        ∃ units, (∀ u ∈ units, u < 0x10000) ∧ rest = units.flatMap order.bytes ∧
          Utf16.Unpaired units) := by
  intro input
  have hopened : input.opened size = _ := opened_marked hlimit hencoding systemId
  refine ⟨fun s => ?_, ?_, Utf16.not_encoded_iff⟩
  · rw [hopened, ← Utf16.decode?_eq_some_iff]
    cases Utf16.decode? order rest <;> simp
  · rw [hopened, ← Utf16.decode?_eq_none_iff]
    cases Utf16.decode? order rest <;> simp

/-- A mark in front of a text that begins with a mark, in reads of three bytes. -/
theorem opened_marked_twice :
    (⟨.bytes (.reads ([0xFF, 0xFE] ++ [0xFF, 0xFE, 0x3D, 0xD8, 0x00, 0xDE]) (fun _ => 3) none) none,
      none⟩ : Input).opened 64 = .ok (.text "\uFEFF😀") := by
  have hencoding : Labelled (fun _ => 3) 64 none := ⟨by decide, by decide⟩
  have hbytes : [0xFF, 0xFE, 0x3D, 0xD8, 0x00, 0xDE] =
      Utf16.encode .littleEndian "\uFEFF😀" := by
    decide
  exact ((opened_marked_iff .littleEndian [0xFF, 0xFE, 0x3D, 0xD8, 0x00, 0xDE] (fun _ => by decide)
    hencoding none).1 "\uFEFF😀").mpr hbytes

end Input

end ScopedXml
