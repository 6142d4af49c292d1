import Mathlib
import ScopedXml.Text.Utf16
import ScopedXml.Text.WhiteSpace

/-!
# The bytes of a text in UTF-16

Decoding accepts nothing but what encoding gives (`encode_of_decode?`). Every byte therefore belongs
to one character, and the byte of `<` to `<` itself or to a character that is no blank
(`isBlank_eq_false_of_mem`).
-/

namespace ScopedXml.Text.Utf16

/-! ## Decoding gives back what was encoded -/

theorem bytes_unit (order : Order) (a b : UInt8) : order.bytes (order.unit a b) = [a, b] := by
  have ha := a.toNat_lt
  have hb := b.toNat_lt
  cases order with
  | littleEndian =>
    have hlow : (a.toNat + 256 * b.toNat) % 256 = a.toNat := by omega
    have hhigh : (a.toNat + 256 * b.toNat) / 256 = b.toNat := by omega
    simp only [Order.bytes, Order.unit, hlow, hhigh, UInt8.ofNat_toNat]
  | bigEndian =>
    have hlow : (256 * a.toNat + b.toNat) % 256 = b.toNat := by omega
    have hhigh : (256 * a.toNat + b.toNat) / 256 = a.toNat := by omega
    simp only [Order.bytes, Order.unit, hlow, hhigh, UInt8.ofNat_toNat]

theorem unit_lt (order : Order) (a b : UInt8) : order.unit a b < 0x10000 := by
  have ha := a.toNat_lt
  have hb := b.toNat_lt
  cases order <;> simp only [Order.unit] <;> omega

theorem flatMap_bytes_of_units? {order : Order} {bytes : List UInt8} {units : List Nat}
    (h : units? order bytes = some units) :
    units.flatMap order.bytes = bytes ∧ ∀ u ∈ units, u < 0x10000 := by
  induction bytes using units?.induct generalizing units with
  | case1 =>
    cases h
    exact ⟨rfl, by simp⟩
  | case2 b => cases h
  | case3 a b rest ih =>
    rw [units?] at h
    obtain ⟨others, hothers, rfl⟩ := Option.map_eq_some_iff.mp h
    obtain ⟨hbytes, hlt⟩ := ih hothers
    refine ⟨?_, fun u hu => ?_⟩
    · rw [List.flatMap_cons, hbytes, bytes_unit]
      rfl
    · rcases List.mem_cons.mp hu with rfl | hu
      · exact unit_lt order a b
      · exact hlt u hu

theorem toNat_ofNat_of_valid {n : Nat} (h : n.isValidChar) : (Char.ofNat n).toNat = n := by
  simp [Char.ofNat, h, Char.ofNatAux, Char.toNat]

theorem toNat_ofNat_byte (b : UInt8) : (Char.ofNat b.toNat).toNat = b.toNat := by
  have hlt := b.toNat_lt
  exact toNat_ofNat_of_valid (.inl (by omega))

theorem unitsOf_single {u : Nat} (hlt : u < 0x10000) (hhigh : isHighSurrogate u = false)
    (hlow : isLowSurrogate u = false) : unitsOf (Char.ofNat u) = [u] := by
  have hvalid : u.isValidChar := by
    simp only [isHighSurrogate, isLowSurrogate, Bool.and_eq_false_imp, decide_eq_true_eq,
      decide_eq_false_iff_not] at hhigh hlow
    unfold Nat.isValidChar
    omega
  rw [unitsOf, toNat_ofNat_of_valid hvalid]
  exact if_pos hlt

theorem unitsOf_pair {u v : Nat} (hhigh : isHighSurrogate u = true)
    (hlow : isLowSurrogate v = true) :
    unitsOf (Char.ofNat (0x10000 + (u - 0xD800) * 1024 + (v - 0xDC00))) = [u, v] := by
  simp only [isHighSurrogate, isLowSurrogate, Bool.and_eq_true, decide_eq_true_eq] at hhigh hlow
  have hvalid : (0x10000 + (u - 0xD800) * 1024 + (v - 0xDC00)).isValidChar := by
    unfold Nat.isValidChar
    omega
  have htoNat := toNat_ofNat_of_valid hvalid
  generalize hn : 0x10000 + (u - 0xD800) * 1024 + (v - 0xDC00) = n at htoNat ⊢
  have hu : 0xD800 + (n - 0x10000) / 1024 = u := by omega
  have hv : 0xDC00 + (n - 0x10000) % 1024 = v := by omega
  have hlong : ¬ n < 0x10000 := by omega
  simp only [unitsOf, htoNat, hu, hv, if_neg hlong]

theorem flatMap_unitsOf_of_chars? {units : List Nat} {cs : List Char}
    (hlt : ∀ u ∈ units, u < 0x10000) (h : chars? units = some cs) : cs.flatMap unitsOf = units := by
  induction units using chars?.induct generalizing cs with
  | case1 =>
    cases h
    rfl
  | case2 u hhigh => simp [chars?, hhigh] at h
  | case3 u hhigh v rest hlow ih =>
    rw [chars?, if_pos hhigh, if_pos hlow] at h
    obtain ⟨others, hothers, rfl⟩ := Option.map_eq_some_iff.mp h
    have hrest : ∀ w ∈ rest, w < 0x10000 := fun w hw =>
      hlt w (List.mem_cons_of_mem _ (List.mem_cons_of_mem _ hw))
    rw [List.flatMap_cons, unitsOf_pair hhigh hlow, ih hrest hothers]
    rfl
  | case4 u hhigh v rest hlow => simp [chars?, hhigh, hlow] at h
  | case5 u rest hhigh hlow =>
    unfold chars? at h
    rw [if_neg hhigh, if_pos hlow] at h
    cases h
  | case6 u rest hhigh hlow ih =>
    unfold chars? at h
    rw [if_neg hhigh, if_neg hlow] at h
    obtain ⟨others, hothers, rfl⟩ := Option.map_eq_some_iff.mp h
    have hrest : ∀ w ∈ rest, w < 0x10000 := fun w hw => hlt w (List.mem_cons_of_mem _ hw)
    rw [List.flatMap_cons, unitsOf_single (hlt u (List.mem_cons_self ..))
      (Bool.eq_false_iff.mpr hhigh) (Bool.eq_false_iff.mpr hlow), ih hrest hothers]
    rfl

theorem encode_of_decode? {order : Order} {bytes : List UInt8} {s : String}
    (h : decode? order bytes = some s) : bytes = encode order s := by
  obtain ⟨cs, hcs, rfl⟩ := Option.map_eq_some_iff.mp h
  obtain ⟨units, hunits, hchars⟩ := Option.bind_eq_some_iff.mp hcs
  obtain ⟨hbytes, hlt⟩ := flatMap_bytes_of_units? hunits
  rw [encode, String.toList_ofList, flatMap_unitsOf_of_chars? hlt hchars, hbytes]

/-! ## Bytes within characters -/

/-- The bytes of one character. -/
def bytesOf (order : Order) (c : Char) : List UInt8 := (unitsOf c).flatMap order.bytes

theorem encode_eq (order : Order) (s : String) :
    encode order s = s.toList.flatMap (bytesOf order) := by
  rw [encode, List.flatMap_assoc]
  rfl

/-- Every byte belongs to one character. -/
theorem exists_char_of_flatMap {order : Order} {cs : List Char} {before after : List UInt8}
    {b : UInt8} (h : cs.flatMap (bytesOf order) = before ++ b :: after) :
    ∃ cs₁ c cs₂ front back, cs = cs₁ ++ c :: cs₂ ∧ bytesOf order c = front ++ b :: back ∧
      before = cs₁.flatMap (bytesOf order) ++ front ∧
      after = back ++ cs₂.flatMap (bytesOf order) := by
  induction cs generalizing before with
  | nil => simp at h
  | cons c cs ih =>
    rw [List.flatMap_cons] at h
    rcases List.append_eq_append_iff.mp h with ⟨inside, rfl, hrest⟩ | ⟨inside, hc, hrest⟩
    · obtain ⟨cs₁, d, cs₂, front, back, rfl, hd, rfl, hafter⟩ := ih hrest
      exact ⟨c :: cs₁, d, cs₂, front, back, rfl, hd, by simp, hafter⟩
    · cases inside with
      | nil =>
        have hnext : cs.flatMap (bytesOf order) = [] ++ b :: after := hrest.symm
        obtain ⟨cs₁, d, cs₂, front, back, rfl, hd, hfront, hafter⟩ := ih hnext
        refine ⟨c :: cs₁, d, cs₂, front, back, rfl, hd, ?_, hafter⟩
        rw [List.flatMap_cons, List.append_assoc, ← hfront, hc, List.append_nil, List.append_nil]
      | cons b' inside =>
        obtain ⟨rfl, rfl⟩ := List.cons.inj hrest
        exact ⟨[], c, cs, before, inside, rfl, hc, by simp, rfl⟩

theorem mem_bytes {order : Order} {b : UInt8} {u : Nat} :
    b ∈ order.bytes u ↔ b = UInt8.ofNat (u % 256) ∨ b = UInt8.ofNat (u / 256) := by
  cases order <;> simp [Order.bytes, or_comm]

theorem isBlank_eq_false {c : Char} (h : c.toNat % 256 = 60 ∨ 0x3C00 ≤ c.toNat)
    (hc : c.toNat ≠ 60) : isBlank c = false := by
  rw [Bool.eq_false_iff]
  intro hblank
  simp only [isBlank, Bool.or_eq_true, Bool.and_eq_true, decide_eq_true_eq, beq_iff_eq] at hblank
  omega

/-- The byte of `<` belongs to `<`, or to a character that is neither ASCII nor blank. -/
theorem bracket_or_of_mem {order : Order} {c : Char} (h : 60 ∈ bytesOf order c) :
    c = '<' ∨ 128 ≤ c.toNat ∧ isBlank c = false := by
  by_cases hc : c.toNat = 60
  · exact .inl (Char.toNat_inj.mp hc)
  · refine .inr ?_
    by_cases hshort : c.toNat < 0x10000
    · have hbytes : 60 ∈ order.bytes c.toNat := by
        simpa [bytesOf, unitsOf, hshort] using h
      have hbyte : c.toNat % 256 = 60 ∨ c.toNat / 256 = 60 := by
        rcases mem_bytes.mp hbytes with heq | heq
        · have hlow : 60 = c.toNat % 256 % 256 := congrArg UInt8.toNat heq
          omega
        · have hhigh : 60 = c.toNat / 256 % 256 := congrArg UInt8.toNat heq
          omega
      exact ⟨by omega, isBlank_eq_false (by omega) hc⟩
    · exact ⟨by omega, isBlank_eq_false (by omega) hc⟩

end ScopedXml.Text.Utf16
