import Mathlib.Data.List.Nodup
import ScopedXml.Proofs.Text.Utf16
import ScopedXml.Text.Charset

/-!
# Names in bytes

Names which differ in their bytes differ as texts, provided that the encoding writes no text in two
ways (`Charset.Faithful.nodup`). UTF-8 and windows-1252 do not. Of encodings that are decoded
elsewhere nothing is said: in Shift_JIS, for one, some characters can be written in two ways.
-/

namespace ScopedXml.Text

namespace Windows1252

end Windows1252

namespace Charset

variable [Decoders] {charset : Charset}

/-- No text is written in two ways. -/
def Faithful (charset : Charset) : Prop :=
  ∀ {bytes bytes' : List UInt8} {s : String}, charset.decode? bytes = some s →
    charset.decode? bytes' = some s → bytes = bytes'

/-- Distinct byte strings stand for distinct texts. -/
theorem Faithful.nodup (hfaithful : charset.Faithful) {keys : List (List UInt8)}
    {names : List String}
    (h : List.Forall₂ (fun key name => charset.decode? key = some name) keys names)
    (hkeys : keys.Nodup) : names.Nodup := by
  have hmap : keys.map charset.decode? = names.map some := by
    rwa [← List.forall₂_eq_eq_eq, List.forall₂_map_left_iff, List.forall₂_map_right_iff]
  refine List.Nodup.of_map some (hmap ▸ hkeys.map_on fun key hkey key' _ hsame => ?_)
  have hdecoded : charset.decode? key ∈ names.map some := hmap ▸ List.mem_map_of_mem hkey
  obtain ⟨name, -, hname⟩ := List.mem_map.mp hdecoded
  exact hfaithful hname.symm (hsame.symm.trans hname.symm)

end Charset

end ScopedXml.Text
