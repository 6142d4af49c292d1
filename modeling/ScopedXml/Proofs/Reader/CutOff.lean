import Mathlib
import ScopedXml.Proofs.Markup.Reference
import ScopedXml.Proofs.Reader.Ending
import ScopedXml.Proofs.Reader.Opening
import ScopedXml.Proofs.Text.Utf16
import ScopedXml.Proofs.Text.Utf8

/-!
# Markup that is cut off

Input that breaks off within markup is refused, however it is read: as text, as bytes, as bytes with
a declared encoding, and as bytes that turn out to be UTF-16 (`DocumentReader.refuses_cut_off`). The
one thing that goes unnoticed is a `<` that nothing follows (`DocumentReader.accepts_bare_bracket`).
-/

namespace ScopedXml

open Markup

/-! ## Bytes that are rounded off -/

/-- A `<` with no `>` behind it is the last byte, if the bytes are rounded off. -/
theorem eq_nil_of_roundsOff {mark closed text bracket before tail : List UInt8}
    (h : (mark ++ closed) ++ (text ++ bracket) = before ++ 60 :: tail) (hmark : 60 ∉ mark)
    (hclosed : closed = [] ∨ closed.getLast? = some 62) (htext : 60 ∉ text)
    (hbracket : bracket = [] ∨ bracket = [60]) (htail : 62 ∉ tail) : tail = [] := by
  have key : ∀ front, text ++ bracket = front ++ 60 :: tail → tail = [] := by
    intro front hfront
    rcases hbracket with rfl | rfl
    · rw [List.append_nil] at hfront
      exact absurd (by simp [hfront]) htext
    · rcases List.eq_nil_or_concat tail with rfl | ⟨tail, b, rfl⟩
      · rfl
      · have hlast : text ++ [60] = (front ++ 60 :: tail) ++ [b] := by simpa using hfront
        have hinit : text = front ++ 60 :: tail := (List.append_inj' hlast rfl).1
        exact absurd (by simp [hinit]) htext
  rcases List.append_eq_append_iff.mp h with ⟨inside, -, hrest⟩ | ⟨inside, hfront, hrest⟩
  · exact key inside hrest
  · cases inside with
    | nil => exact key [] hrest.symm
    | cons b inside =>
      obtain ⟨rfl, hinside⟩ := List.cons.inj hrest
      rcases hclosed with rfl | hclosed
      · rw [List.append_nil] at hfront
        exact absurd (by simp [hfront]) hmark
      · have hlast : (before ++ 60 :: inside).getLast? = some 62 := by
          rw [← hfront, List.getLast?_append, hclosed, Option.some_or]
        have h62 : (62 : UInt8) ∈ 60 :: inside := by
          rw [List.getLast?_append_of_ne_nil _ (List.cons_ne_nil _ _)] at hlast
          exact List.mem_of_getLast? hlast
        have hin : (62 : UInt8) ∈ inside := by simpa using h62
        exact absurd (hinside ▸ List.mem_append_left _ hin) htail

/-! ## What is read -/

theorem transcriptOf_items [Text.Decoders] (schema : Option Schema) (origin : Origin)
    (setup : LexerSetup) (l : Lexer) :
    (transcriptOf schema origin (l.run setup)).items = .event .startDocument ::
      (Reading.along (schema.getD .empty) origin setup (.start schema.isSome) l).items := rfl

theorem endDocument_of_transcriptOf [Text.Decoders] {schema : Option Schema} {origin : Origin}
    {setup : LexerSetup} {l : Lexer} (hstart : l.phase = .start)
    (h : .event .endDocument ∈ (transcriptOf schema origin (l.run setup)).items) :
    Reading.Ends (schema.getD .empty) origin setup (.start schema.isSome) l.begun := by
  rw [Lexer.run_begun setup hstart, transcriptOf_items] at h
  rcases List.mem_cons.mp h with h | h
  · cases h
  · exact Reading.ends_of_endDocument h

/-- A text that is read to its end is rounded off. -/
theorem text_roundsOff [Text.Decoders] {r : DocumentReader} {s : String}
    (hmark : Text.Utf8.Unmarked (DocumentReader.withoutMark s))
    (h : .event .endDocument ∈ (r.transcriptOfText s).items) :
    ∃ closed text bracket, Text.Utf8.encode (DocumentReader.withoutMark s) =
        closed ++ (text ++ bracket) ∧
      (closed = [] ∨ closed.getLast? = some 62) ∧ 60 ∉ text ∧ (bracket = [] ∨ bracket = [60]) ∧
      Reading.Idle .utf8 text := by
  have hends := endDocument_of_transcriptOf rfl h
  have hplaced : Reading.Placed (.text (DocumentReader.withoutMark s).toUTF8)
      (Lexer.ofSupply (.whole (Text.Utf8.encode (DocumentReader.withoutMark s))) false).begun := by
    rw [Lexer.begun_text hmark]
    exact ⟨[], (bytesOf_fill _).symm, rfl, rfl⟩
  obtain ⟨closed, text, bracket, hround⟩ :=
    hends.exists_roundsOff (Lexer.begun_ready _) hplaced
  rw [Lexer.begun_text hmark] at hround
  refine ⟨closed, text, bracket, ?_, hround.ends, hround.unmarked, hround.bare, hround.idle rfl⟩
  rw [← List.append_assoc, ← hround.bytes]
  exact (bytesOf_fill _).symm

/-- A stream that is read to its end is rounded off, up to a byte order mark. -/
theorem stream_roundsOff [Text.Decoders] {r : DocumentReader} {supply : Supply}
    (h : .event .endDocument ∈ (r.transcriptOfStream supply).items) :
    ∃ mark closed text bracket, bytesOf supply.octets = (mark ++ closed) ++ (text ++ bracket) ∧
      60 ∉ mark ∧ (closed = [] ∨ closed.getLast? = some 62) ∧ 60 ∉ text ∧
      (bracket = [] ∨ bracket = [60]) := by
  have hends := endDocument_of_transcriptOf rfl h
  obtain ⟨closed, text, bracket, hround⟩ :=
    hends.exists_roundsOff (Lexer.begun_ready _) trivial
  obtain ⟨mark, hbytes, hmark⟩ := (Lexer.ofSupply supply true).bytes_begun
  refine ⟨mark, closed, text, bracket, ?_, hmark, hround.ends, hround.unmarked, hround.bare⟩
  rw [List.append_assoc, ← List.append_assoc closed, ← hround.bytes]
  exact hbytes

/-! ## What is written behind -/

/-- `<` and what may follow it when no `>` is there. -/
structure CutOff (m : String) : Prop where
  bracket : m.toList.head? = some '<'
  unclosed : '>' ∉ m.toList

theorem notMem_encode {s : String} (h : '>' ∉ s.toList) : 62 ∉ Text.Utf8.encode s := by
  have hascii : '>'.toNat < 128 := by decide
  exact fun h62 => h ((Text.Utf8.mem_encode hascii).mp h62)

theorem CutOff.encode_eq {m : String} (h : CutOff m) (d : String) :
    ∃ rest, m = "<" ++ rest ∧ '>' ∉ rest.toList ∧
      Text.Utf8.encode (d ++ m) = Text.Utf8.encode d ++ 60 :: Text.Utf8.encode rest ∧
      62 ∉ Text.Utf8.encode rest := by
  obtain ⟨cs, hcs⟩ := List.head?_eq_some_iff.mp h.bracket
  have hm : m = "<" ++ String.ofList cs := by
    rw [← String.toList_inj, String.toList_append, hcs]
    simp
  have hrest : '>' ∉ (String.ofList cs).toList := by
    intro hmem
    apply h.unclosed
    rw [hcs]
    exact List.mem_cons_of_mem _ (by simpa using hmem)
  refine ⟨String.ofList cs, hm, hrest, ?_, notMem_encode hrest⟩
  rw [hm, Text.Utf8.encode_append, Text.Utf8.encode_append]
  rfl

section Routes

variable {r : DocumentReader} {d m s : String}

theorem eq_empty_of_encode {s : String} (h : Text.Utf8.encode s = []) : s = "" :=
  Text.Utf8.encode_injective h

theorem CutOff.unmarked_append (hm : CutOff m) (d : String) :
    Text.Utf8.Unmarked (d ++ m) ↔ Text.Utf8.Unmarked d := by
  unfold Text.Utf8.Unmarked
  rw [String.toList_append, List.head?_append, hm.bracket]
  cases d.toList.head? <;> simp

theorem CutOff.withoutMark_append (hm : CutOff m) (d : String) :
    DocumentReader.withoutMark (d ++ m) = DocumentReader.withoutMark d ++ m := by
  by_cases hd : Text.Utf8.Unmarked d
  · rw [DocumentReader.withoutMark_of_unmarked hd,
      DocumentReader.withoutMark_of_unmarked ((hm.unmarked_append d).mpr hd)]
  · obtain ⟨t, rfl⟩ := Text.Utf8.exists_of_marked hd
    rw [String.append_assoc, DocumentReader.withoutMark_marked, DocumentReader.withoutMark_marked]

/-- One byte order mark less. -/
theorem not_marks_withoutMark {n : Nat}
    (h : ¬ List.replicate (n + 2) '\uFEFF' <+: d.toList) :
    ¬ List.replicate (n + 1) '\uFEFF' <+: (DocumentReader.withoutMark d).toList := by
  by_cases hd : Text.Utf8.Unmarked d
  · rw [DocumentReader.withoutMark_of_unmarked hd]
    rintro ⟨rest, hrest⟩
    apply hd
    rw [← hrest]
    rfl
  · obtain ⟨t, rfl⟩ := Text.Utf8.exists_of_marked hd
    rw [DocumentReader.withoutMark_marked]
    intro ht
    apply h
    rw [String.toList_append, List.replicate_succ]
    exact (List.prefix_cons_inj _).mpr ht

theorem unmarked_iff : Text.Utf8.Unmarked s ↔ ¬ List.replicate 1 '\uFEFF' <+: s.toList := by
  unfold Text.Utf8.Unmarked
  cases s.toList with
  | nil => simp
  | cons c cs => simp [eq_comm]

/-- Text that is cut off. -/
theorem endDocument_notMem_text [Text.Decoders] (hm : CutOff m) (hbare : m ≠ "<")
    (hmarks : ¬ List.replicate 2 '\uFEFF' <+: d.toList) :
    .event .endDocument ∉ (r.transcriptOfText (d ++ m)).items := by
  intro h
  have hmark : Text.Utf8.Unmarked (DocumentReader.withoutMark (d ++ m)) := by
    rw [hm.withoutMark_append, hm.unmarked_append, unmarked_iff]
    exact not_marks_withoutMark hmarks
  obtain ⟨closed, text, bracket, hbytes, hclosed, htext, hbracket, -⟩ := text_roundsOff hmark h
  rw [hm.withoutMark_append] at hbytes
  obtain ⟨rest, rfl, -, hencode, htail⟩ := hm.encode_eq (DocumentReader.withoutMark d)
  rw [hencode, ← List.nil_append closed] at hbytes
  have hrest := eq_nil_of_roundsOff hbytes.symm (by simp) hclosed htext hbracket htail
  rw [eq_empty_of_encode hrest] at hbare
  exact hbare rfl

/-- Bytes that are cut off and not decoded beforehand. -/
theorem endDocument_notMem_stream [Text.Decoders] {supply : Supply} (hm : CutOff m)
    (hbare : m ≠ "<") (hsupply : bytesOf supply.octets = Text.Utf8.encode (d ++ m)) :
    .event .endDocument ∉ (r.transcriptOfStream supply).items := by
  intro h
  obtain ⟨mark, closed, text, bracket, hbytes, hmark, hclosed, htext, hbracket⟩ :=
    stream_roundsOff h
  obtain ⟨rest, rfl, -, hencode, htail⟩ := hm.encode_eq d
  rw [hsupply, hencode] at hbytes
  have hrest := eq_nil_of_roundsOff hbytes.symm hmark hclosed htext hbracket htail
  rw [eq_empty_of_encode hrest] at hbare
  exact hbare rfl

end Routes

/-! ## Bytes that are UTF-16 -/

/-- ASCII bytes are a text. -/
theorem exists_ascii {bytes : List UInt8} (h : ∀ b ∈ bytes, b < 128) :
    ∃ s : String, Text.Utf8.encode s = bytes ∧ ∀ c ∈ s.toList, c.toNat < 128 := by
  induction bytes with
  | nil => exact ⟨"", rfl, by simp⟩
  | cons b bytes ih =>
    obtain ⟨s, hs, hascii⟩ := ih fun b' hb' => h b' (List.mem_cons_of_mem _ hb')
    have hb : b.toNat < 128 := h b (List.mem_cons_self ..)
    have hc : (Char.ofNat b.toNat).toNat = b.toNat := Text.Utf16.toNat_ofNat_byte b
    refine ⟨String.singleton (Char.ofNat b.toNat) ++ s, ?_, fun c hmem => ?_⟩
    · rw [Text.Utf8.encode_append, hs, Text.Utf8.encode_eq, String.toList_singleton,
        List.flatMap_singleton, Text.Utf8.utf8EncodeChar_of_ascii (by omega), hc,
        UInt8.ofNat_toNat]
      rfl
    · rw [String.toList_append, String.toList_singleton] at hmem
      rcases List.mem_cons.mp hmem with rfl | hmem
      · omega
      · exact hascii c hmem

theorem lt_of_isMarkupBlank {b : UInt8} (h : Text.isMarkupBlank b = true) : b < 128 := by
  simp only [Text.isMarkupBlank, Bool.or_eq_true, beq_iff_eq] at h
  rcases h with ((rfl | rfl) | rfl) | rfl <;> decide

/-- Bytes that say nothing are ASCII around a text that is blank when its references are
expanded. -/
theorem exists_of_idle [Text.Decoders] {text : List UInt8} (h : Reading.Idle .utf8 text) :
    ∃ blanks s after expanded, text = blanks ++ Text.Utf8.encode s ++ after ∧
      (∀ b ∈ blanks ++ after, b < 128) ∧ expand s = .ok expanded ∧
      Text.allBlank expanded = true := by
  obtain ⟨blanks, shown, after, rfl, hblanks, hshown⟩ := h
  have hascii : ∀ b ∈ blanks ++ after, b < 128 := fun b hb => lt_of_isMarkupBlank (hblanks b hb)
  rcases hshown with rfl | ⟨s, expanded, hdecoded, hexpanded, hblank⟩
  · exact ⟨blanks, "", after, "", rfl, hascii, by simp [expand, expandFrom, Except.map], rfl⟩
  · rw [Text.Charset.decode?, Text.Utf8.decode?_eq_some_iff] at hdecoded
    subst hdecoded
    exact ⟨blanks, s, after, expanded, rfl, hascii, hexpanded, hblank⟩

/-- A character that is not ASCII is not among ASCII bytes behind the last `>`. -/
theorem not_behind_closed {before after : List Char} {c : Char} {closed blanks : List UInt8}
    (h : (before ++ c :: after).flatMap String.utf8EncodeChar = closed ++ blanks)
    (hclosed : closed = [] ∨ closed.getLast? = some 62) (hafter : '>' ∉ after)
    (hblanks : ∀ b ∈ blanks, b < 128) (hlong : 128 ≤ c.toNat) : False := by
  have hbytes : ∀ b ∈ String.utf8EncodeChar c, ¬ b < 128 := by
    intro b hb hlt
    have hnat : b.toNat < 128 := hlt
    have := (Text.Utf8.utf8EncodeChar_of_mem hb hlt).2
    omega
  have hne : String.utf8EncodeChar c ≠ [] := String.utf8EncodeChar_ne_nil
  obtain ⟨b, hb⟩ := List.exists_mem_of_ne_nil _ hne
  rw [List.flatMap_append, List.flatMap_cons] at h
  rcases hclosed with rfl | hclosed
  · have hmem : b ∈ blanks := by
      rw [List.nil_append] at h
      rw [← h]
      simp [hb]
    exact hbytes b hb (hblanks b hmem)
  · obtain ⟨front, rfl⟩ := List.getLast?_eq_some_iff.mp hclosed
    rw [List.append_assoc front, List.singleton_append] at h
    rcases List.append_eq_append_iff.mp h with ⟨inside, -, hrest⟩ | ⟨inside, -, hrest⟩
    · have h62 : 62 ∈ String.utf8EncodeChar c ++ after.flatMap String.utf8EncodeChar := by
        rw [hrest]
        simp
      rcases List.mem_append.mp h62 with h62 | h62
      · exact hbytes 62 h62 (by decide)
      · rw [← Text.Utf8.encode_ofList] at h62
        exact notMem_encode (by simpa using hafter) h62
    · have hmem : b ∈ 62 :: blanks := by
        rw [hrest]
        simp [hb]
      rcases List.mem_cons.mp hmem with rfl | hmem
      · exact hbytes 62 hb (by decide)
      · exact hbytes b hb (hblanks b hmem)

/-- The characters behind the last `>` are blank where nothing is said, or ASCII. -/
theorem isBlank_of_idle [Text.Decoders] {before after : List Char} {c : Char}
    {closed text bracket : List UInt8}
    (h : (before ++ c :: after).flatMap String.utf8EncodeChar = closed ++ (text ++ bracket))
    (hclosed : closed = [] ∨ closed.getLast? = some 62) (hafter : '>' ∉ after)
    (hbracket : bracket = [] ∨ bracket = [60]) (hidle : Reading.Idle .utf8 text)
    (hlong : 128 ≤ c.toNat) : Text.isBlank c = true := by
  obtain ⟨blanks, s, tail, expanded, rfl, hascii, hexpanded, hblank⟩ := exists_of_idle hidle
  have htail : ∀ b ∈ tail ++ bracket, b < 128 := by
    intro b hb
    rcases List.mem_append.mp hb with hb | hb
    · exact hascii b (List.mem_append_right _ hb)
    · rcases hbracket with rfl | rfl
      · cases hb
      · obtain rfl := List.mem_singleton.mp hb
        decide
  obtain ⟨w, hw, hwascii⟩ := exists_ascii htail
  have hwhole : Text.Utf8.encode (String.ofList (before ++ c :: after)) =
      (closed ++ blanks) ++ Text.Utf8.encode (s ++ w) := by
    rw [Text.Utf8.encode_ofList, h, Text.Utf8.encode_append, hw]
    simp only [List.append_assoc]
  obtain ⟨u, hu, hfront⟩ := Text.Utf8.exists_append_of_suffix hwhole
  have hchars : before ++ c :: after = u.toList ++ (s.toList ++ w.toList) := by
    have := congrArg String.toList hu
    simpa using this
  have hmem : c ∈ s.toList ++ w.toList := by
    rcases List.append_eq_append_iff.mp hchars with ⟨inside, hu', hrest⟩ | ⟨inside, -, hinside⟩
    · cases inside with
      | nil => exact hrest ▸ List.mem_cons_self ..
      | cons d inside =>
        obtain ⟨rfl, rfl⟩ := List.cons.inj hrest
        rw [Text.Utf8.encode_eq, hu'] at hfront
        have hinside : '>' ∉ inside := fun hmem => hafter (List.mem_append_left _ hmem)
        have hblanks : ∀ b ∈ blanks, b < 128 := fun b hb => hascii b (List.mem_append_left _ hb)
        exact (not_behind_closed hfront hclosed hinside hblanks hlong).elim
    · exact hinside ▸ List.mem_append_right _ (List.mem_cons_self ..)
  have hshown : c ∈ s.toList := by
    rcases List.mem_append.mp hmem with hmem | hmem
    · exact hmem
    · have := hwascii c hmem
      omega
  have hin := mem_expand hexpanded hshown hlong
  exact List.all_eq_true.mp hblank c hin

/-- What is a bare `<` behind `d` when bytes are read in this way. In UTF-16 the `<` takes two bytes;
the first of them may be the last one of `d`, and then `d` by itself is no UTF-16. -/
def Bare (order : Option Text.Utf16.Order) (d m : String) : Prop :=
  match order with
  | none => m = "<"
  | some .littleEndian => m = "<\x00"
  | some .bigEndian => m = "<" ∧ (Text.Utf8.encode d).length % 2 = 1

theorem length_bytesOf_even (order : Text.Utf16.Order) (cs : List Char) :
    (cs.flatMap (Text.Utf16.bytesOf order)).length % 2 = 0 := by
  induction cs with
  | nil => rfl
  | cons c cs ih =>
    have hc : (Text.Utf16.bytesOf order c).length % 2 = 0 := by
      unfold Text.Utf16.bytesOf Text.Utf16.unitsOf
      dsimp only
      split <;> cases order <;> simp [Text.Utf16.Order.bytes]
    rw [List.flatMap_cons, List.length_append]
    omega

theorem unmarked_of_utf16 {order : Text.Utf16.Order} {s t : String}
    (h : Text.Utf8.encode t = Text.Utf16.encode order s) : Text.Utf8.Unmarked s := by
  by_contra hmark
  obtain ⟨s, rfl⟩ := Text.Utf8.exists_of_marked hmark
  rw [Text.Utf8.encode_eq, Text.Utf16.encode_eq, String.toList_append, List.flatMap_append] at h
  cases order with
  | littleEndian =>
    have : (0xFF : UInt8).IsUTF8FirstByte := Text.Utf8.isFirstByte_of_encode h
    exact absurd this (by decide)
  | bigEndian =>
    have : (0xFE : UInt8).IsUTF8FirstByte := Text.Utf8.isFirstByte_of_encode h
    exact absurd this (by decide)

theorem bare_of_bytes {order : Text.Utf16.Order} {before : List Char} {d rest : String}
    {front back : List UInt8} (hc : Text.Utf16.bytesOf order '<' = front ++ 60 :: back)
    (hd : Text.Utf8.encode d = before.flatMap (Text.Utf16.bytesOf order) ++ front)
    (hrest : Text.Utf8.encode rest = back) : Bare (some order) d ("<" ++ rest) := by
  cases order with
  | littleEndian =>
    have hbytes : Text.Utf16.bytesOf .littleEndian '<' = [60, 0] := by decide
    rw [hbytes] at hc
    have hback : back = [0] := by
      rcases front with _ | ⟨x, _ | ⟨y, front⟩⟩
      · simpa using hc.symm
      · simp at hc
      · simp at hc
    have hzero : Text.Utf8.encode rest = Text.Utf8.encode "\x00" :=
      hrest.trans (hback.trans (by decide))
    rw [Text.Utf8.encode_injective hzero]
    rfl
  | bigEndian =>
    have hbytes : Text.Utf16.bytesOf .bigEndian '<' = [0, 60] := by decide
    rw [hbytes] at hc
    obtain ⟨rfl, rfl⟩ : front = [0] ∧ back = [] := by
      rcases front with _ | ⟨x, _ | ⟨y, front⟩⟩
      · simp at hc
      · simpa [eq_comm] using hc
      · simp at hc
    have heven := length_bytesOf_even .bigEndian before
    rw [eq_empty_of_encode hrest]
    refine ⟨rfl, ?_⟩
    rw [hd, List.length_append, List.length_singleton]
    omega

/-- UTF-16 that is cut off. -/
theorem endDocument_notMem_utf16 [Text.Decoders] {r : DocumentReader} {d m s : String}
    {order : Text.Utf16.Order} (hm : CutOff m) (hbare : ¬ Bare (some order) d m)
    (hdecoded : Text.Utf16.decode? order (Text.Utf8.encode (d ++ m)) = some s) :
    .event .endDocument ∉ (r.transcriptOfText s).items := by
  intro h
  have hencoded := Text.Utf16.encode_of_decode? hdecoded
  have hmark := unmarked_of_utf16 hencoded
  have hbody : DocumentReader.withoutMark s = s := DocumentReader.withoutMark_of_unmarked hmark
  rw [← hbody] at hmark
  obtain ⟨closed, text, bracket, hbytes, hclosed, htext, hbracket, hidle⟩ := text_roundsOff hmark h
  rw [hbody] at hbytes
  obtain ⟨rest, rfl, -, hencode, hrest⟩ := hm.encode_eq d
  rw [hencode, Text.Utf16.encode_eq] at hencoded
  obtain ⟨before, c, after, front, back, hs, hc, hd, hback⟩ :=
    Text.Utf16.exists_char_of_flatMap hencoded.symm
  rw [Text.Utf8.encode_eq, hs] at hbytes
  have hafter : '>' ∉ after := by
    intro hmem
    apply hrest
    rw [hback]
    refine List.mem_append_right _ (List.mem_flatMap.mpr ⟨'>', hmem, ?_⟩)
    cases order <;> decide
  rcases Text.Utf16.bracket_or_of_mem (by rw [hc]; simp) with rfl | ⟨hlong, hblank⟩
  · have hsplit : ([] ++ closed) ++ (text ++ bracket) =
        before.flatMap String.utf8EncodeChar ++ 60 :: Text.Utf8.encode (String.ofList after) := by
      rw [List.nil_append, ← hbytes, List.flatMap_append, List.flatMap_cons,
        Text.Utf8.encode_ofList]
      rfl
    have h62 : 62 ∉ Text.Utf8.encode (String.ofList after) := notMem_encode (by simpa using hafter)
    have hnil := eq_empty_of_encode
      (eq_nil_of_roundsOff hsplit (by simp) hclosed htext hbracket h62)
    obtain rfl : after = [] := by simpa using congrArg String.toList hnil
    rw [List.flatMap_nil, List.append_nil] at hback
    exact hbare (bare_of_bytes hc hd hback)
  · rw [isBlank_of_idle hbytes hclosed hafter hbracket hidle hlong] at hblank
    cases hblank

/-! ## Readers -/

namespace DocumentReader

section Refusals

variable [Text.Decoders]

/-- The input is read to its end, with some listeners. -/
def Accepts (r : DocumentReader) (input : Input) : Prop :=
  ∃ (P C : Type) (policy : Policy P) (receiver : Receiver C) (p : P) (c : C),
    (r.parse input policy receiver p c).1 = .ok ()

/-- Whoever listens, the parse fails and the end of the document is not delivered. -/
def Refuses (r : DocumentReader) (input : Input) : Prop :=
  ∀ (P C : Type) (policy : Policy P) (receiver : Receiver C) (p : P) (c : C),
    (r.parse input policy receiver p c).1 ≠ .ok () ∧
      .endDocument ∉ eventsOf (r.handed input policy receiver p c)

variable {r : DocumentReader} {input : Input}

theorem refuses_of_error {e : ReadFailure} (h : r.transcript input = .error e) :
    r.Refuses input := by
  intro P C policy receiver p c
  rw [parse_of_error h, handed_of_error h]
  exact ⟨by simp, by simp [eventsOf]⟩

theorem refuses_of_notMem {t : Transcript} (h : r.transcript input = .ok t)
    (hend : .event .endDocument ∉ t.items) : r.Refuses input := by
  intro P C policy receiver p c
  have hdelivered : .endDocument ∉ eventsOf (r.handed input policy receiver p c) := by
    intro hmem
    rw [handed_of_transcript h] at hmem
    obtain ⟨item, hitem, hevent⟩ := List.mem_filterMap.mp hmem
    cases item with
    | report d => cases hevent
    | event e =>
      cases hevent
      exact hend ((handed_isPrefix _).subset hitem)
  refine ⟨fun hok => ?_, hdelivered⟩
  obtain ⟨origin, lexing, rfl⟩ := exists_transcriptOf h
  have htells := transcriptOf_tells r.schema origin lexing policy receiver p c
  rw [parse_of_transcript h] at hok
  rw [handed_of_transcript h] at hdelivered
  obtain ⟨-, name, attributes, content, -, hall⟩ := htells
  rw [hall hok] at hdelivered
  simp [Node.documentEvents] at hdelivered

/-- A supply of nothing has no document element. -/
theorem endDocument_notMem_empty {supply : Supply} (h : supply.octets = []) :
    .event .endDocument ∉ (r.transcriptOfStream supply).items := by
  intro hmem
  have hends := endDocument_of_transcriptOf rfl hmem
  have hnil : (Lexer.ofSupply supply true).begun.octets = [] := by
    obtain ⟨mark, hbytes, -⟩ := (Lexer.ofSupply supply true).bytes_begun
    have hall : (Lexer.ofSupply supply true).bytes = [] := List.map_eq_nil_iff.mpr h
    rw [hall] at hbytes
    exact List.map_eq_nil_iff.mp (List.append_eq_nil_iff.mp hbytes.symm).2
  have hseen := (hends.ended (Lexer.begun_ready _) (by simp [Lexer.begun]) hnil).2
  cases hseen

/-- **Cut-off.** Behind any text `d`, markup with no `>` is refused, whether the two are given as
text, as bytes, or as bytes that are declared to be UTF-8. Excepted are a `<` that nothing follows
and, where a text is looked at, byte order marks in front of it that are taken out without being
counted. -/
theorem refuses_cut_off (r : DocumentReader) (d : String) {m : String}
    (hm : CutOff m) :
    (¬ List.replicate 2 '\uFEFF' <+: d.toList → m ≠ "<" → r.Refuses (.ofText (d ++ m))) ∧
    (∀ limit : Nat → Nat, (∀ n, 0 < limit n) →
      ¬ Bare (Input.sniffed (.reads (Text.Utf8.encode (d ++ m)) limit none)
          r.settings.bufferSize) d m →
        r.Refuses (.ofSource (.reads (Text.Utf8.encode (d ++ m)) limit none))) ∧
    (∀ limit : Nat → Nat, (∀ n, 0 < limit n) → ∀ label, Input.charset label = .ok .utf8 →
      ¬ List.replicate 3 '\uFEFF' <+: d.toList → m ≠ "<" →
        r.Refuses ((Input.ofSource (.reads (Text.Utf8.encode (d ++ m)) limit none)).withEncoding
          label)) := by
  refine ⟨fun hmarks hbare => ?text, fun limit hlimit hbare => ?bytes,
    fun limit hlimit label hlabel hmarks hbare => ?declared⟩
  case text =>
    exact refuses_of_notMem (transcript_text rfl) (endDocument_notMem_text hm hbare hmarks)
  case bytes =>
    have hopened := Input.opened_reads (fun _ : Text.Utf8.encode (d ++ m) ≠ [] => hlimit)
      r.settings.bufferSize
    generalize horder : Input.sniffed (.reads (Text.Utf8.encode (d ++ m)) limit none)
      r.settings.bufferSize = order at hbare hopened
    cases order with
    | none =>
      refine refuses_of_notMem (transcript_stream hopened) ?_
      by_cases hsize : 0 < r.settings.bufferSize
      · exact endDocument_notMem_stream hm hbare
          (ByteSource.bytesOf_supply (fun _ => hlimit) none hsize)
      · exact endDocument_notMem_empty
          (ByteSource.octets_supply_zero _ limit none (Nat.eq_zero_of_not_pos hsize))
    | some order =>
      dsimp only at hopened
      rw [Input.sniffed, ByteSource.firstFill_reads] at horder
      rw [Input.decoded_utf16 (List.take_prefix _ _) horder] at hopened
      cases hdecoded : Text.Utf16.decode? order (Text.Utf8.encode (d ++ m)) with
      | none =>
        rw [hdecoded] at hopened
        exact refuses_of_error (transcript_error hopened)
      | some s =>
        rw [hdecoded] at hopened
        exact refuses_of_notMem (transcript_text hopened)
          (endDocument_notMem_utf16 hm hbare hdecoded)
  case declared =>
    have hopened := Input.opened_declared hlabel (fun _ : Text.Utf8.encode (d ++ m) ≠ [] => hlimit)
      r.settings.bufferSize
    refine refuses_of_notMem (transcript_text hopened) ?_
    rw [hm.withoutMark_append]
    exact endDocument_notMem_text hm hbare (not_marks_withoutMark hmarks)

end Refusals

theorem refuses_open_comment :
    (⟨none, .standard⟩ : DocumentReader).Refuses (.ofText ("<a/>" ++ "<!--")) ∧
      (⟨none, .standard⟩ : DocumentReader).Refuses
        (.ofSource (.reads (Text.Utf8.encode ("<a/>" ++ "<!--")) (fun _ => 3) none)) ∧
      (⟨none, .standard⟩ : DocumentReader).Refuses
        ((Input.ofSource (.reads (Text.Utf8.encode ("<a/>" ++ "<!--")) (fun _ => 3) none)).withEncoding
          "utf-8") := by
  have hm : CutOff "<!--" := ⟨by decide, by decide⟩
  have hlimit : ∀ n : Nat, 0 < (fun _ : Nat => 3) n := fun _ => Nat.succ_pos 2
  obtain ⟨htext, hbytes, hdeclared⟩ :=
    refuses_cut_off ⟨none, .standard⟩ "<a/>" hm
  refine ⟨htext (by decide) (by decide), hbytes _ hlimit ?_,
    hdeclared _ hlimit "utf-8" rfl (by decide) (by decide)⟩
  intro hbare
  unfold Bare at hbare
  split at hbare
  · exact absurd hbare (by decide)
  · exact absurd hbare (by decide)
  · exact absurd hbare.1 (by decide)

/-- A `<` that nothing follows goes unnoticed in text and in bytes, and so does a tag that is cut off
where a byte order mark was not counted. -/
theorem accepts_bare_bracket :
    let r : DocumentReader := ⟨none, .standard⟩
    (CutOff "<" ∧ r.Accepts (.ofText "<a/>") ∧ r.Accepts (.ofText ("<a/>" ++ "<"))) ∧
      (r.Accepts (.ofSource (.ofBytes (Text.Utf8.encode "<a/>"))) ∧
        r.Accepts (.ofSource (.ofBytes (Text.Utf8.encode ("<a/>" ++ "<"))))) ∧
      (CutOff "</" ∧ r.Accepts (.ofText "\uFEFF\uFEFF<!---->  <a/") ∧
        r.Accepts (.ofText ("\uFEFF\uFEFF<!---->  <a/" ++ "</"))) := by
  have key : ∀ input : Input, ((⟨none, .standard⟩ : DocumentReader).parse input Ledger.policy
      (EventRecord.receiver none) ⟨.collecting, []⟩ .empty).1 = .ok () →
      (⟨none, .standard⟩ : DocumentReader).Accepts input :=
    fun input h => ⟨_, _, _, _, _, _, h⟩
  refine ⟨⟨⟨by decide, by decide⟩, key _ ?_, key _ ?_⟩, ⟨key _ ?_, key _ ?_⟩,
    ⟨by decide, by decide⟩, key _ ?_, key _ ?_⟩
  all_goals cbv

end DocumentReader

end ScopedXml
