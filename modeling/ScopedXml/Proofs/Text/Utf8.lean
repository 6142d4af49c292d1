import Mathlib.Data.List.Infix
import ScopedXml.Text.Charset

/-!
# The bytes of a text in UTF-8

A text is encoded character by character (`encode_eq`), so encoding puts bytes behind bytes where it
puts texts behind texts. An ASCII byte stands for its character and is part of no other
(`utf8EncodeChar_of_mem`). Bytes that encode a text are made of whole characters, wherever they begin
or end a longer text (`exists_append_of_prefix`, `exists_append_of_suffix`); so the bytes have a byte
order mark exactly if the text has one (`ofMark?_encode`).
-/

namespace ScopedXml.Text.Utf8

theorem encode_eq (s : String) : encode s = s.toList.flatMap String.utf8EncodeChar := by
  have h := congrArg (·.data.toList) s.utf8Encode_toList
  simpa [List.utf8Encode, encode] using h.symm

theorem encode_ofList (cs : List Char) :
    encode (String.ofList cs) = cs.flatMap String.utf8EncodeChar := by
  rw [encode_eq, String.toList_ofList]

theorem encode_append (s t : String) : encode (s ++ t) = encode s ++ encode t := by
  simp only [encode_eq, String.toList_append, List.flatMap_append]

theorem encode_injective {s t : String} (h : encode s = encode t) : s = t := by
  have hs := decode?_encode s
  rw [h, decode?_encode] at hs
  exact (Option.some.inj hs).symm

/-! ## ASCII -/

/-- A byte above 127, as the bytes of long characters are written. -/
theorem not_ofNat_lt {n k : Nat} (hlow : 128 ≤ k) (hhigh : n + k < 256) :
    ¬ UInt8.ofNat (n + k) < 128 := by
  rw [UInt8.lt_iff_toNat_lt, UInt8.toNat_ofNat', Nat.mod_eq_of_lt hhigh]
  simp
  omega

theorem utf8EncodeChar_of_mem {c : Char} {b : UInt8} (hb : b ∈ String.utf8EncodeChar c)
    (hlt : b < 128) : String.utf8EncodeChar c = [b] ∧ c.toNat = b.toNat := by
  have hc : c.toNat < 1114112 := by
    rcases c.valid with h | ⟨-, h⟩
    · have : c.toNat < 55296 := h
      omega
    · exact h
  unfold String.utf8EncodeChar at hb ⊢
  change c.val.toNat < 1114112 at hc
  change _ ∧ c.val.toNat = _
  generalize c.val.toNat = v at hb hc ⊢
  dsimp only at hb ⊢
  split at hb
  · next hv =>
    obtain rfl := List.mem_singleton.mp hb
    rw [if_pos hv, UInt8.toNat_ofNat', Nat.mod_eq_of_lt (by omega)]
    exact ⟨rfl, rfl⟩
  · exfalso
    revert hlt
    split at hb
    · simp only [List.mem_cons, List.not_mem_nil, or_false] at hb
      rcases hb with rfl | rfl <;> exact not_ofNat_lt (by omega) (by omega)
    · split at hb
      · simp only [List.mem_cons, List.not_mem_nil, or_false] at hb
        rcases hb with rfl | rfl | rfl <;> exact not_ofNat_lt (by omega) (by omega)
      · simp only [List.mem_cons, List.not_mem_nil, or_false] at hb
        rcases hb with rfl | rfl | rfl | rfl <;> exact not_ofNat_lt (by omega) (by omega)

theorem utf8EncodeChar_of_ascii {c : Char} (h : c.toNat < 128) :
    String.utf8EncodeChar c = [UInt8.ofNat c.toNat] := by
  have hle : c.val.toNat ≤ 127 := Nat.le_of_lt_succ h
  simp only [String.utf8EncodeChar, if_pos hle]
  rfl

theorem mem_encode {s : String} {c : Char} (hc : c.toNat < 128) :
    UInt8.ofNat c.toNat ∈ encode s ↔ c ∈ s.toList := by
  have hbyte : (UInt8.ofNat c.toNat).toNat = c.toNat := by
    rw [UInt8.toNat_ofNat', Nat.mod_eq_of_lt (by omega)]
  rw [encode_eq, List.mem_flatMap]
  constructor
  · rintro ⟨d, hd, hmem⟩
    have hlt : UInt8.ofNat c.toNat < 128 := by
      rw [UInt8.lt_iff_toNat_lt, hbyte]
      exact hc
    have htoNat := (utf8EncodeChar_of_mem hmem hlt).2
    rw [hbyte] at htoNat
    rwa [← Char.toNat_inj.mp htoNat]
  · intro h
    exact ⟨c, h, by simp [utf8EncodeChar_of_ascii hc]⟩

/-! ## Whole characters -/

theorem flatMap_utf8EncodeChar_eq_nil {cs : List Char}
    (h : cs.flatMap String.utf8EncodeChar = []) : cs = [] := by
  cases cs with
  | nil => rfl
  | cons c cs => simp [String.utf8EncodeChar_ne_nil] at h

/-- The byte at which a text begins is one at which characters begin. -/
theorem isFirstByte_of_encode {cs : List Char} {b : UInt8} {rest : List UInt8}
    (h : cs.flatMap String.utf8EncodeChar = b :: rest) : b.IsUTF8FirstByte := by
  cases cs with
  | nil => simp at h
  | cons c cs =>
    have hlength : 0 < (String.utf8EncodeChar c).length :=
      List.length_pos_iff.mpr String.utf8EncodeChar_ne_nil
    have hfirst : (String.utf8EncodeChar c)[0] = b := by
      have hzero := congrArg (·[0]?) h
      simp only [List.flatMap_cons, List.getElem?_append_left hlength,
        List.getElem?_cons_zero, List.getElem?_eq_getElem hlength] at hzero
      exact Option.some.inj hzero
    rw [← hfirst]
    exact UInt8.isUTF8FirstByte_getElem_zero_utf8EncodeChar

/-- No character has inside it a byte at which a text begins. -/
theorem eq_nil_of_utf8EncodeChar {c : Char} {before after : List UInt8} {b : UInt8}
    (hc : String.utf8EncodeChar c = before ++ b :: after) (hb : b.IsUTF8FirstByte) :
    before = [] := by
  have hlength : before.length < (String.utf8EncodeChar c).length := by
    rw [hc, List.length_append, List.length_cons]
    omega
  have hat : (String.utf8EncodeChar c)[before.length] = b := by
    simp [hc]
  rw [← hat] at hb
  exact List.length_eq_zero_iff.mp (UInt8.isUTF8FirstByte_getElem_utf8EncodeChar.mp hb)

theorem flatMap_utf8EncodeChar_injective {cs ds : List Char}
    (h : cs.flatMap String.utf8EncodeChar = ds.flatMap String.utf8EncodeChar) : cs = ds := by
  rw [← encode_ofList, ← encode_ofList] at h
  simpa using congrArg String.toList (encode_injective h)

theorem exists_append_of_flatMap {cs ds : List Char} {before : List UInt8}
    (h : cs.flatMap String.utf8EncodeChar = before ++ ds.flatMap String.utf8EncodeChar) :
    ∃ es, cs = es ++ ds := by
  induction cs generalizing before with
  | nil =>
    rw [List.flatMap_nil] at h
    have hds := flatMap_utf8EncodeChar_eq_nil (List.append_eq_nil_iff.mp h.symm).2
    exact ⟨[], by rw [hds]; rfl⟩
  | cons c cs ih =>
    rw [List.flatMap_cons] at h
    rcases List.append_eq_append_iff.mp h with ⟨inside, rfl, hrest⟩ | ⟨inside, hc, hrest⟩
    · obtain ⟨es, rfl⟩ := ih hrest
      exact ⟨c :: es, rfl⟩
    · cases inside with
      | nil =>
        rw [List.nil_append] at hrest
        exact ⟨[c], by rw [flatMap_utf8EncodeChar_injective hrest]; rfl⟩
      | cons b inside =>
        obtain rfl := eq_nil_of_utf8EncodeChar hc (isFirstByte_of_encode hrest)
        rw [List.nil_append, ← List.flatMap_cons] at h
        exact ⟨[], flatMap_utf8EncodeChar_injective h⟩

/-- Bytes at the end of a text that encode a text are the end of its characters. -/
theorem exists_append_of_suffix {s t : String} {before : List UInt8}
    (h : encode s = before ++ encode t) : ∃ u, s = u ++ t ∧ encode u = before := by
  have hlists := h
  rw [encode_eq, encode_eq] at hlists
  obtain ⟨es, hes⟩ := exists_append_of_flatMap hlists
  have hs : s = String.ofList es ++ t := by
    rw [← String.toList_inj, String.toList_append, String.toList_ofList, hes]
  refine ⟨String.ofList es, hs, ?_⟩
  rw [hs, encode_append] at h
  exact List.append_cancel_right h

/-- Bytes at the beginning of a text that encode a text are the beginning of its characters. -/
theorem exists_append_of_prefix {s t : String} {after : List UInt8}
    (h : encode s = encode t ++ after) : ∃ u, s = t ++ u ∧ encode u = after := by
  have hbytes : t.toList.utf8Encode ++ ⟨after.toArray⟩ = s.toList.utf8Encode := by
    apply ByteArray.ext
    rw [← Array.toList_inj]
    simpa [encode] using h.symm
  obtain ⟨us, hus⟩ := List.isPrefix_of_utf8Encode_append_eq_utf8Encode _ hbytes
  have hs : s = t ++ String.ofList us := by
    rw [← String.toList_inj, String.toList_append, String.toList_ofList, hus]
  refine ⟨String.ofList us, hs, ?_⟩
  rw [hs, encode_append] at h
  exact List.append_cancel_left h

/-! ## Byte order marks -/

/-- No byte order mark at the beginning. -/
def Unmarked (s : String) : Prop := s.toList.head? ≠ some '\uFEFF'

instance (s : String) : Decidable (Unmarked s) :=
  inferInstanceAs (Decidable (s.toList.head? ≠ some '\uFEFF'))

theorem exists_of_marked {s : String} (h : ¬ Unmarked s) : ∃ t, s = "\uFEFF" ++ t := by
  obtain ⟨cs, hcs⟩ := List.head?_eq_some_iff.mp (not_not.mp h)
  refine ⟨String.ofList cs, ?_⟩
  rw [← String.toList_inj, String.toList_append, hcs]
  simp

theorem not_unmarked (t : String) : ¬ Unmarked ("\uFEFF" ++ t) := by
  simp [Unmarked]

theorem encode_mark : encode "\uFEFF" = [0xEF, 0xBB, 0xBF] := by decide

theorem ofMark?_eq_some {bytes rest : List UInt8} {charset : Charset}
    (h : Charset.ofMark? bytes = some (charset, rest)) :
    ∃ mark, bytes = mark ++ rest ∧
      (mark = [0xEF, 0xBB, 0xBF] ∧ charset = .utf8 ∨
        mark = [0xFF, 0xFE] ∧ charset = .utf16 .littleEndian ∨
        mark = [0xFE, 0xFF] ∧ charset = .utf16 .bigEndian) := by
  unfold Charset.ofMark? at h
  split at h
  · cases h
    exact ⟨_, rfl, .inl ⟨rfl, rfl⟩⟩
  · cases h
    exact ⟨_, rfl, .inr (.inl ⟨rfl, rfl⟩)⟩
  · cases h
    exact ⟨_, rfl, .inr (.inr ⟨rfl, rfl⟩)⟩
  · cases h

/-- The byte order mark of a text is that of UTF-8. -/
theorem exists_of_ofMark?_encode {s : String} {charset : Charset} {rest : List UInt8}
    (h : Charset.ofMark? (encode s) = some (charset, rest)) :
    charset = .utf8 ∧ ∃ t, s = "\uFEFF" ++ t ∧ encode t = rest := by
  obtain ⟨mark, hbytes, hmark⟩ := ofMark?_eq_some h
  have hlist := hbytes
  rw [encode_eq] at hlist
  rcases hmark with ⟨rfl, rfl⟩ | ⟨rfl, rfl⟩ | ⟨rfl, rfl⟩
  · rw [← encode_mark] at hbytes
    exact ⟨rfl, exists_append_of_prefix hbytes⟩
  · have : (0xFF : UInt8).IsUTF8FirstByte := isFirstByte_of_encode hlist
    exact absurd this (by decide)
  · have : (0xFE : UInt8).IsUTF8FirstByte := isFirstByte_of_encode hlist
    exact absurd this (by decide)

theorem ofMark?_encode {s : String} (h : Unmarked s) : Charset.ofMark? (encode s) = none := by
  cases hmark : Charset.ofMark? (encode s) with
  | none => rfl
  | some found =>
    obtain ⟨-, t, rfl, -⟩ := exists_of_ofMark?_encode hmark
    exact absurd h (not_unmarked t)

theorem ofMark?_encode_marked (t : String) :
    Charset.ofMark? (encode ("\uFEFF" ++ t)) = some (.utf8, encode t) := by
  rw [encode_append, encode_mark]
  rfl

end ScopedXml.Text.Utf8
