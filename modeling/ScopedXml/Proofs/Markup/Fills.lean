import Mathlib.Data.List.Infix
import Mathlib.Data.List.TakeWhile
import ScopedXml.Markup.Supply

/-!
# Fills

The bytes of a supply, and what its first fill shows of them. As long as no read is empty, bytes that
are split into fills are all there (`bytesOf_fills`).
-/

namespace ScopedXml.Markup

/-- The bytes without the marks of their fills. -/
abbrev bytesOf (octets : List Octet) : List UInt8 := octets.map (·.byte)

theorem bytesOf_drop (n : Nat) (octets : List Octet) :
    bytesOf (octets.drop n) = (bytesOf octets).drop n := List.map_drop

theorem bytesOf_fill (bytes : List UInt8) : bytesOf (Octet.fill bytes) = bytes := by
  cases bytes with
  | nil => rfl
  | cons b bytes =>
    simp [Octet.fill, Function.comp_def]

theorem bytesOf_fills {limit : Nat → Nat} (n : Nat) {bytes : List UInt8}
    (hlimit : bytes ≠ [] → ∀ n, 0 < limit n) : bytesOf (Octet.fills limit n bytes) = bytes := by
  induction n, bytes using Octet.fills.induct limit with
  | case1 n bytes hcond ih =>
    rw [Octet.fills, if_pos hcond, bytesOf, List.map_append]
    have hrest := ih fun _ => hlimit hcond.2
    exact (congrArg₂ _ (bytesOf_fill _) hrest).trans (List.take_append_drop _ _)
  | case2 n bytes hcond =>
    have hnil : bytes = [] := by
      by_contra hbytes
      exact hcond ⟨hlimit hbytes n, hbytes⟩
    rw [Octet.fills, if_neg hcond, hnil]
    rfl

theorem firstFill_prefix (s : Supply) : s.firstFill <+: bytesOf s.octets := by
  unfold Supply.firstFill
  split
  · exact List.nil_prefix
  · next o rest h =>
    rw [h]
    exact (List.prefix_cons_inj o.byte).mpr ((List.takeWhile_prefix _).map _)

theorem takeWhile_fill (bytes : List UInt8) (rest : List Octet)
    (hrest : ∀ o ∈ rest.head?, o.fresh = true) :
    ((bytes.map (Octet.mk · false) ++ rest).takeWhile (!·.fresh)).map (·.byte) = bytes := by
  induction bytes with
  | nil =>
    cases rest with
    | nil => rfl
    | cons o rest => simp [hrest o rfl]
  | cons b bytes ih => simpa using ih

theorem take_ne_nil {n : Nat} {bytes : List UInt8} (h : 0 < n ∧ bytes ≠ []) : bytes.take n ≠ [] := by
  intro hnil
  rcases List.take_eq_nil_iff.mp hnil with hzero | hbytes
  · omega
  · exact h.2 hbytes

/-- Bytes that are there to be read begin a fill. -/
theorem fresh_head_fills (limit : Nat → Nat) (n : Nat) (bytes : List UInt8) :
    ∀ o ∈ (Octet.fills limit n bytes).head?, o.fresh = true := by
  rw [Octet.fills]
  split
  · next hcond =>
    cases htake : bytes.take (limit n) with
    | nil => exact absurd htake (take_ne_nil hcond)
    | cons b rest => simp [Octet.fill]
  · simp

/-- The first fill is the first read. -/
theorem firstFill_fills (limit : Nat → Nat) (n : Nat) (bytes : List UInt8)
    (failure : Option String) :
    Supply.firstFill ⟨Octet.fills limit n bytes, failure⟩ = bytes.take (limit n) := by
  rw [Octet.fills]
  split
  · next hcond =>
    cases htake : bytes.take (limit n) with
    | nil => exact absurd htake (take_ne_nil hcond)
    | cons b rest =>
      have hrest := takeWhile_fill rest _ (fresh_head_fills limit (n + 1) (bytes.drop (limit n)))
      simp only [Supply.firstFill, Octet.fill, List.cons_append, hrest]
  · next hcond =>
    by_cases hbytes : bytes = []
    · simp [hbytes, Supply.firstFill]
    · have hzero : limit n = 0 := by
        by_contra hpos
        exact hcond ⟨Nat.pos_of_ne_zero hpos, hbytes⟩
      simp [hzero, Supply.firstFill]

theorem firstFill_whole (bytes : List UInt8) : (Supply.whole bytes).firstFill = bytes := by
  cases bytes with
  | nil => rfl
  | cons b bytes =>
    have hfill := takeWhile_fill bytes [] (by simp)
    rw [List.append_nil] at hfill
    simp only [Supply.firstFill, Supply.whole, Octet.fill, hfill]

end ScopedXml.Markup
