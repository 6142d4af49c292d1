/-!
# UTF-8

* `decode?`: the text that a byte string encodes, if it encodes one.
* `decodeLossy`: decoding with one U+FFFD in place of each maximal piece that no text continues.

`decode?_eq_some_iff`: decoding undoes encoding and accepts nothing else.
-/

namespace ScopedXml.Text.Utf8

def encode (s : String) : List UInt8 := s.toUTF8.data.toList

def decode? (bytes : List UInt8) : Option String := String.fromUTF8? ⟨bytes.toArray⟩

theorem decode?_encode (s : String) : decode? (encode s) = some s := by
  have h : (⟨(encode s).toArray⟩ : ByteArray) = s.toUTF8 := by simp [encode]
  simp only [decode?, h, String.fromUTF8?]
  exact dif_pos s.isValidUTF8

theorem decode?_eq_some_iff {bytes : List UInt8} {s : String} :
    decode? bytes = some s ↔ bytes = encode s := by
  constructor
  · intro h
    simp only [decode?, String.fromUTF8?] at h
    split at h
    · cases h
      simp [encode, String.fromUTF8]
    · cases h
  · rintro rfl
    exact decode?_encode s

/-! ## Lossy decoding -/

/-- How many bytes follow a lead byte, and the range in which the first of them must lie. `none`
for a byte that starts no character. -/
def continuation? (lead : UInt8) : Option (Nat × UInt8 × UInt8) :=
  if lead < 0x80 then some (0, 0x80, 0xBF)
  else if lead < 0xC2 then none
  else if lead < 0xE0 then some (1, 0x80, 0xBF)
  else if lead = 0xE0 then some (2, 0xA0, 0xBF)
  else if lead = 0xED then some (2, 0x80, 0x9F)
  else if lead < 0xF0 then some (2, 0x80, 0xBF)
  else if lead = 0xF0 then some (3, 0x90, 0xBF)
  else if lead < 0xF4 then some (3, 0x80, 0xBF)
  else if lead = 0xF4 then some (3, 0x80, 0x8F)
  else none

/-- How many bytes of `rest` continue a character that still needs `need` bytes, the first of
them within `low` to `high`. -/
def continued (need : Nat) (low high : UInt8) : List UInt8 → Nat
  | [] => 0
  | b :: rest =>
    match need with
    | 0 => 0
    | need + 1 => if low ≤ b && b ≤ high then 1 + continued need 0x80 0xBF rest else 0

/-- The character with this lead byte and these continuation bytes. -/
def character (lead : UInt8) (tail : List UInt8) : Char :=
  let start : Nat := match tail.length with
    | 0 => lead.toNat
    | 1 => lead.toNat % 32
    | 2 => lead.toNat % 16
    | _ => lead.toNat % 8
  Char.ofNat (tail.foldl (fun n b => n * 64 + b.toNat % 64) start)

def decodeLossyChars : List UInt8 → List Char
  | [] => []
  | lead :: rest =>
    match continuation? lead with
    | none => '\uFFFD' :: decodeLossyChars rest
    | some (need, low, high) =>
      let width := continued need low high rest
      let c := if width = need then character lead (rest.take need) else '\uFFFD'
      c :: decodeLossyChars (rest.drop width)
termination_by bytes => bytes.length
decreasing_by all_goals (simp only [List.length_cons, List.length_drop]; omega)

def decodeLossy (bytes : List UInt8) : String := String.ofList (decodeLossyChars bytes)

end ScopedXml.Text.Utf8
