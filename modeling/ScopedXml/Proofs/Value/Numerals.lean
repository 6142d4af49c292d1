import Mathlib
import ScopedXml.Value.Builtin

/-!
# Integers and the texts that write them

A value of an integer type is an optional sign and digits (`Writes`), of any length. Values are
compared through words of 128 bits; since the bounds of a type fit into such a word, and a value
beyond it has the sign of the side on which it lies, the comparison is that of the integers
themselves (`isIntegerWithin_iff`). So every type of the family accepts what writes an integer of
its range, and nothing else (`IntegerType.accepts_iff_mem_range`).
-/

namespace ScopedXml.Value

/-! ## Numerals -/

/-- The number that digits write, where the last one counts once. -/
def numeral (digits : List Char) : Nat :=
  Nat.ofDigits 10 (digits.reverse.map fun c => c.toNat - '0'.toNat)

theorem digitsValue_eq (digits : List Char) : digitsValue digits = numeral digits := by
  rw [numeral, Nat.ofDigits_eq_foldr, List.foldr_map, List.foldr_reverse, digitsValue]
  congr 1
  funext n c
  exact (Nat.add_comm _ _).trans (by rw [Nat.mul_comm]; rfl)

theorem isDigits_iff {digits : List Char} :
    isDigits digits = true ↔ digits ≠ [] ∧ ∀ c ∈ digits, c.isDigit = true := by
  simp [isDigits, isDigit]

/-- The text is an optional sign and digits, one at least, that write the integer. -/
inductive Writes : List Char → Int → Prop
  | unsigned {digits : List Char} : digits ≠ [] → (∀ c ∈ digits, c.isDigit = true) →
    Writes digits (numeral digits)
  | plus {digits : List Char} : digits ≠ [] → (∀ c ∈ digits, c.isDigit = true) →
    Writes ('+' :: digits) (numeral digits)
  | minus {digits : List Char} : digits ≠ [] → (∀ c ∈ digits, c.isDigit = true) →
    Writes ('-' :: digits) (-numeral digits)

theorem unsign_digits {digits : List Char} (hdigits : ∀ c ∈ digits, c.isDigit = true) :
    unsign digits = (false, digits) := by
  unfold unsign
  split
  · exact absurd (hdigits '+' List.mem_cons_self) (by decide)
  · exact absurd (hdigits '-' List.mem_cons_self) (by decide)
  · rfl

theorem unsign_cases (cs : List Char) :
    unsign cs = (false, cs) ∨ (∃ digits, cs = '+' :: digits) ∨ ∃ digits, cs = '-' :: digits := by
  unfold unsign
  split
  · exact .inr (.inl ⟨_, rfl⟩)
  · exact .inr (.inr ⟨_, rfl⟩)
  · exact .inl rfl

theorem integerValue?_of_unsign {cs digits : List Char} {negative : Bool}
    (hsign : unsign cs = (negative, digits)) (n : Int) :
    integerValue? cs = some n ↔ (digits ≠ [] ∧ ∀ c ∈ digits, c.isDigit = true) ∧
      (if negative then -(numeral digits : Int) else numeral digits) = n := by
  rw [integerValue?, hsign]
  dsimp only
  rw [digitsValue_eq, Option.ite_none_right_eq_some, isDigits_iff, Option.some.injEq]

theorem integerValue?_eq_some_iff {cs : List Char} {n : Int} :
    integerValue? cs = some n ↔ Writes cs n := by
  constructor
  · intro h
    rcases unsign_cases cs with hsign | ⟨digits, rfl⟩ | ⟨digits, rfl⟩
    · obtain ⟨⟨hne, hdigits⟩, rfl⟩ := (integerValue?_of_unsign hsign n).mp h
      exact .unsigned hne hdigits
    · obtain ⟨⟨hne, hdigits⟩, rfl⟩ := (integerValue?_of_unsign rfl n).mp h
      exact .plus hne hdigits
    · obtain ⟨⟨hne, hdigits⟩, rfl⟩ := (integerValue?_of_unsign rfl n).mp h
      exact .minus hne hdigits
  · intro h
    cases h with
    | unsigned hne hdigits =>
      exact (integerValue?_of_unsign (unsign_digits hdigits) _).mpr ⟨⟨hne, hdigits⟩, rfl⟩
    | plus hne hdigits => exact (integerValue?_of_unsign rfl _).mpr ⟨⟨hne, hdigits⟩, rfl⟩
    | minus hne hdigits => exact (integerValue?_of_unsign rfl _).mpr ⟨⟨hne, hdigits⟩, rfl⟩

theorem Writes.nonpos {cs : List Char} {n : Int} (h : Writes cs n) (hsign : cs.head? = some '-') :
    n ≤ 0 := by
  cases h with
  | unsigned _ hdigits =>
    exact absurd (hdigits '-' (List.mem_of_mem_head? hsign)) (by decide)
  | plus => cases hsign
  | minus => omega

theorem Writes.nonneg {cs : List Char} {n : Int} (h : Writes cs n) (hsign : cs.head? ≠ some '-') :
    0 ≤ n := by
  cases h with
  | unsigned => omega
  | plus => omega
  | minus => exact absurd rfl hsign

/-! ## Words -/

theorem fitsWord_iff {bits : Nat} {n : Int} :
    fitsWord bits n = true ↔ -2 ^ (bits - 1) ≤ n ∧ n < 2 ^ (bits - 1) := by
  rw [fitsWord, Bool.and_eq_true, decide_eq_true_eq, decide_eq_true_eq]
  rfl

/-- Both bounds fit into a word of 128 bits. -/
structure Bounds.Fit (b : Bounds) : Prop where
  least : b.least.all (fitsWord 128) = true
  greatest : b.greatest.all (fitsWord 128) = true

theorem Bounds.holds_iff {b : Bounds} {n : Int} :
    b.holds n = true ↔ (∀ m ∈ b.least, m ≤ n) ∧ ∀ m ∈ b.greatest, n ≤ m := by
  rcases b with ⟨_ | least, _ | greatest⟩ <;> simp [Bounds.holds]

theorem Bounds.Fit.of_mem_least {b : Bounds} (hb : b.Fit) {m : Int} (hm : m ∈ b.least) :
    -2 ^ 127 ≤ m ∧ m < 2 ^ 127 :=
  fitsWord_iff.mp ((Option.all_eq_true _ _).mp hb.least m hm)

theorem Bounds.Fit.of_mem_greatest {b : Bounds} (hb : b.Fit) {m : Int} (hm : m ∈ b.greatest) :
    -2 ^ 127 ≤ m ∧ m < 2 ^ 127 :=
  fitsWord_iff.mp ((Option.all_eq_true _ _).mp hb.greatest m hm)

/-- Below all words only an open side holds a value. -/
theorem Bounds.Fit.holds_of_lt {b : Bounds} (hb : b.Fit) {n : Int} (hn : n < -2 ^ 127) :
    b.holds n = true ↔ b.least.isNone = true := by
  rw [Bounds.holds_iff, Option.isNone_iff_eq_none, Option.eq_none_iff_forall_not_mem]
  constructor
  · rintro ⟨hleast, -⟩ m hm
    have hfits := (hb.of_mem_least hm).1
    have hle := hleast m hm
    omega
  · intro hnone
    refine ⟨fun m hm => absurd hm (hnone m), fun m hm => ?_⟩
    have hfits := (hb.of_mem_greatest hm).1
    omega

theorem Bounds.Fit.holds_of_le {b : Bounds} (hb : b.Fit) {n : Int} (hn : 2 ^ 127 ≤ n) :
    b.holds n = true ↔ b.greatest.isNone = true := by
  rw [Bounds.holds_iff, Option.isNone_iff_eq_none, Option.eq_none_iff_forall_not_mem]
  constructor
  · rintro ⟨-, hgreatest⟩ m hm
    have hfits := (hb.of_mem_greatest hm).2
    have hle := hgreatest m hm
    omega
  · intro hnone
    refine ⟨fun m hm => ?_, fun m hm => absurd hm (hnone m)⟩
    have hfits := (hb.of_mem_least hm).2
    omega

/-- A comparison through words is one of integers. -/
theorem isIntegerWithin_iff {b : Bounds} (hb : b.Fit) {cs : List Char} :
    isIntegerWithin b cs = true ↔ ∃ n, Writes cs n ∧ b.holds n = true := by
  simp only [← integerValue?_eq_some_iff]
  rw [isIntegerWithin]
  cases hvalue : integerValue? cs with
  | none => simp
  | some n =>
    have hwrites := integerValue?_eq_some_iff.mp hvalue
    simp only [Option.some.injEq, exists_eq_left']
    split
    · rfl
    · next hlarge =>
      -- The sign tells below or above all words, and with that which bound has to be absent.
      rw [fitsWord_iff, not_and_or, not_le, not_lt] at hlarge
      split
      · next hminus =>
        have hnonpos := hwrites.nonpos (eq_of_beq hminus)
        exact (hb.holds_of_lt (by omega)).symm
      · next hplus =>
        have hnonneg := hwrites.nonneg fun hsign => hplus (beq_iff_eq.mpr hsign)
        exact (hb.holds_of_le (by omega)).symm

/-! ## The integer types -/

/-- The types of the integer family. -/
inductive IntegerType
  | integer
  | nonPositiveInteger
  | negativeInteger
  | nonNegativeInteger
  | positiveInteger
  | long
  | int
  | short
  | byte
  | unsignedLong
  | unsignedInt
  | unsignedShort
  | unsignedByte

namespace IntegerType

def name : IntegerType → String
  | integer => "integer"
  | nonPositiveInteger => "nonPositiveInteger"
  | negativeInteger => "negativeInteger"
  | nonNegativeInteger => "nonNegativeInteger"
  | positiveInteger => "positiveInteger"
  | long => "long"
  | int => "int"
  | short => "short"
  | byte => "byte"
  | unsignedLong => "unsignedLong"
  | unsignedInt => "unsignedInt"
  | unsignedShort => "unsignedShort"
  | unsignedByte => "unsignedByte"

/-- The integers that are values of the type. -/
def range : IntegerType → Set Int
  | integer => Set.univ
  | nonPositiveInteger => Set.Iic 0
  | negativeInteger => Set.Iic (-1)
  | nonNegativeInteger => Set.Ici 0
  | positiveInteger => Set.Ici 1
  | long => Set.Ico (-2 ^ 63) (2 ^ 63)
  | int => Set.Ico (-2 ^ 31) (2 ^ 31)
  | short => Set.Ico (-2 ^ 15) (2 ^ 15)
  | byte => Set.Ico (-2 ^ 7) (2 ^ 7)
  | unsignedLong => Set.Ico 0 (2 ^ 64)
  | unsignedInt => Set.Ico 0 (2 ^ 32)
  | unsignedShort => Set.Ico 0 (2 ^ 16)
  | unsignedByte => Set.Ico 0 (2 ^ 8)

end IntegerType

theorem Bounds.holds_between {least bound n : Int} :
    (⟨some least, some (bound - 1)⟩ : Bounds).holds n = true ↔ n ∈ Set.Ico least bound := by
  simp [Bounds.holds]

namespace IntegerType

/-- Every type has bounds that admit the integers of its range. -/
theorem exists_bounds (t : IntegerType) : ∃ b : Bounds,
    Builtin.ofName? t.name = some ⟨t.name, .integer b⟩ ∧ b.Fit ∧
      ∀ n, b.holds n = true ↔ n ∈ t.range := by
  cases t with
  | integer => exact ⟨_, rfl, ⟨rfl, rfl⟩, fun n => by simp [Bounds.holds, range]⟩
  | nonPositiveInteger => exact ⟨_, rfl, ⟨rfl, rfl⟩, fun n => by simp [Bounds.holds, range]⟩
  | negativeInteger => exact ⟨_, rfl, ⟨rfl, rfl⟩, fun n => by simp [Bounds.holds, range]⟩
  | nonNegativeInteger => exact ⟨_, rfl, ⟨rfl, rfl⟩, fun n => by simp [Bounds.holds, range]⟩
  | positiveInteger => exact ⟨_, rfl, ⟨rfl, rfl⟩, fun n => by simp [Bounds.holds, range]⟩
  | long => exact ⟨_, rfl, ⟨rfl, rfl⟩, fun n => Bounds.holds_between⟩
  | int => exact ⟨_, rfl, ⟨rfl, rfl⟩, fun n => Bounds.holds_between⟩
  | short => exact ⟨_, rfl, ⟨rfl, rfl⟩, fun n => Bounds.holds_between⟩
  | byte => exact ⟨_, rfl, ⟨rfl, rfl⟩, fun n => Bounds.holds_between⟩
  | unsignedLong => exact ⟨_, rfl, ⟨rfl, rfl⟩, fun n => Bounds.holds_between⟩
  | unsignedInt => exact ⟨_, rfl, ⟨rfl, rfl⟩, fun n => Bounds.holds_between⟩
  | unsignedShort => exact ⟨_, rfl, ⟨rfl, rfl⟩, fun n => Bounds.holds_between⟩
  | unsignedByte => exact ⟨_, rfl, ⟨rfl, rfl⟩, fun n => Bounds.holds_between⟩

/-- **Integers and their ranges.** A type of the integer family accepts a value exactly if it is,
without the blanks around it, an optional sign and digits that write an integer of its range. -/
theorem accepts_iff_mem_range (t : IntegerType) : ∃ type, Builtin.ofName? t.name = some type ∧
    ∀ value, type.accepts value = true ↔
      ∃ n ∈ t.range, Writes (Text.trimChars value.toList) n := by
  obtain ⟨b, htype, hfit, hrange⟩ := t.exists_bounds
  refine ⟨_, htype, fun value => ?_⟩
  have hwithin : (Builtin.mk t.name (.integer b)).accepts value =
      isIntegerWithin b (Text.trimChars value.toList) := rfl
  rw [hwithin, isIntegerWithin_iff hfit]
  simp only [hrange, and_comm]

example : (Builtin.ofName? "nonNegativeInteger").map
    (·.accepts " +0340282366920938463463374607431768211456 ") = some true := by decide +kernel

end IntegerType

end ScopedXml.Value
