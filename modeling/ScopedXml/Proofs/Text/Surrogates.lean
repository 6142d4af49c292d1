import ScopedXml.Proofs.Text.Utf16

/-!
# Texts in UTF-16 and what is none

Every text can be decoded from its bytes (`decode?_encode`), so that bytes are decoded to a text
exactly if they are the bytes of that text (`decode?_eq_some_iff`). All other bytes are odd in
number, or have a surrogate among their units that is not part of a pair (`not_encoded_iff`).

* `Unpaired`: a high surrogate that no low one follows, or a low one that no high one precedes.
-/

namespace ScopedXml.Text.Utf16

/-! ## Units of two bytes -/

theorem units?_bytes_append (order : Order) {u : Nat} (hu : u < 0x10000) (bytes : List UInt8) :
    units? order (order.bytes u ++ bytes) = (units? order bytes).map (u :: ·) := by
  have hlow : (UInt8.ofNat (u % 256)).toNat = u % 256 := by
    rw [UInt8.toNat_ofNat', Nat.mod_mod]
  have hhigh : (UInt8.ofNat (u / 256)).toNat = u / 256 := by
    rw [UInt8.toNat_ofNat', Nat.mod_eq_of_lt (by omega)]
  have hsum : 256 * (u / 256) + u % 256 = u := Nat.div_add_mod u 256
  cases order with
  | littleEndian =>
    simp only [Order.bytes, List.cons_append, List.nil_append, units?, Order.unit, hlow, hhigh]
    rw [Nat.add_comm, hsum]
  | bigEndian =>
    simp only [Order.bytes, List.cons_append, List.nil_append, units?, Order.unit, hlow, hhigh,
      hsum]

theorem units?_flatMap_bytes (order : Order) {units : List Nat} (hlt : ∀ u ∈ units, u < 0x10000) :
    units? order (units.flatMap order.bytes) = some units := by
  induction units with
  | nil => rfl
  | cons u units ih =>
    rw [List.flatMap_cons, units?_bytes_append order (hlt u List.mem_cons_self),
      ih fun v hv => hlt v (List.mem_cons_of_mem _ hv)]
    rfl

theorem units?_eq_none_iff {order : Order} {bytes : List UInt8} :
    units? order bytes = none ↔ bytes.length % 2 = 1 := by
  induction bytes using units?.induct with
  | case1 => simp [units?]
  | case2 b => simp [units?]
  | case3 a b rest ih =>
    rw [units?, Option.map_eq_none_iff, ih, List.length_cons, List.length_cons]
    omega

/-! ## Characters of one unit or two -/

theorem toNat_lt (c : Char) : c.toNat < 0x110000 := by
  rcases c.valid with h | ⟨-, h⟩
  · have hlow : c.toNat < 0xD800 := h
    omega
  · exact h

theorem unitsOf_lt (c : Char) : ∀ u ∈ unitsOf c, u < 0x10000 := by
  have hc := toNat_lt c
  intro u hu
  unfold unitsOf at hu
  dsimp only at hu
  split at hu
  · next hshort => rwa [List.mem_singleton.mp hu]
  · simp only [List.mem_cons, List.not_mem_nil, or_false] at hu
    rcases hu with hu | hu <;> omega

theorem not_surrogate (c : Char) :
    isHighSurrogate c.toNat = false ∧ isLowSurrogate c.toNat = false := by
  have hc : c.toNat < 0xD800 ∨ 0xDFFF < c.toNat := c.valid.imp id And.left
  constructor <;> rw [Bool.eq_false_iff] <;>
    simp only [isHighSurrogate, isLowSurrogate, ne_eq, Bool.and_eq_true, decide_eq_true_eq] <;>
    omega

theorem chars?_unitsOf_append (c : Char) (units : List Nat) :
    chars? (unitsOf c ++ units) = (chars? units).map (c :: ·) := by
  by_cases hshort : c.toNat < 0x10000
  · obtain ⟨hhigh, hlow⟩ := not_surrogate c
    rw [unitsOf, if_pos hshort, List.singleton_append, chars?.eq_def]
    simp only [hhigh, hlow, Bool.false_eq_true, if_false, Char.ofNat_toNat]
  · have hc := toNat_lt c
    have hhigh : isHighSurrogate (0xD800 + (c.toNat - 0x10000) / 1024) = true := by
      simp only [isHighSurrogate, Bool.and_eq_true, decide_eq_true_eq]
      omega
    have hlow : isLowSurrogate (0xDC00 + (c.toNat - 0x10000) % 1024) = true := by
      simp only [isLowSurrogate, Bool.and_eq_true, decide_eq_true_eq]
      omega
    have hsum : 0x10000 + (0xD800 + (c.toNat - 0x10000) / 1024 - 0xD800) * 1024 +
        (0xDC00 + (c.toNat - 0x10000) % 1024 - 0xDC00) = c.toNat := by
      omega
    rw [unitsOf, if_neg hshort, List.cons_append, List.singleton_append, chars?, if_pos hhigh,
      if_pos hlow, hsum, Char.ofNat_toNat]

theorem chars?_flatMap_unitsOf (cs : List Char) : chars? (cs.flatMap unitsOf) = some cs := by
  induction cs with
  | nil => rfl
  | cons c cs ih =>
    rw [List.flatMap_cons, chars?_unitsOf_append, ih]
    rfl

/-! ## Texts -/

theorem decode?_encode (order : Order) (s : String) : decode? order (encode order s) = some s := by
  have hlt : ∀ u ∈ s.toList.flatMap unitsOf, u < 0x10000 := by
    intro u hu
    obtain ⟨c, -, hc⟩ := List.mem_flatMap.mp hu
    exact unitsOf_lt c u hc
  rw [decode?, encode, units?_flatMap_bytes order hlt, Option.bind_some, chars?_flatMap_unitsOf,
    Option.map_some, String.ofList_toList]

theorem decode?_eq_some_iff {order : Order} {bytes : List UInt8} {s : String} :
    decode? order bytes = some s ↔ bytes = encode order s := by
  constructor
  · exact encode_of_decode?
  · rintro rfl
    exact decode?_encode order s

theorem decode?_eq_none_iff {order : Order} {bytes : List UInt8} :
    decode? order bytes = none ↔ ∀ s, bytes ≠ encode order s := by
  simp only [Option.eq_none_iff_forall_ne_some, ne_eq, decode?_eq_some_iff]

/-! ## Surrogates without partners -/

/-- Among the units is a surrogate without its partner: a high one that no low one follows, or a low
one that no high one precedes. -/
def Unpaired (units : List Nat) : Prop :=
  ∃ before u after, units = before ++ u :: after ∧
    (isHighSurrogate u = true ∧ after.head?.any isLowSurrogate = false ∨
      isLowSurrogate u = true ∧ before.getLast?.any isHighSurrogate = false)

theorem isLowSurrogate_eq_false {u : Nat} (h : isHighSurrogate u = true) :
    isLowSurrogate u = false := by
  simp only [isHighSurrogate, isLowSurrogate, Bool.and_eq_true, decide_eq_true_eq,
    Bool.and_eq_false_imp, decide_eq_false_iff_not] at h ⊢
  omega

theorem isHighSurrogate_eq_false {u : Nat} (h : isLowSurrogate u = true) :
    isHighSurrogate u = false := by
  rw [Bool.eq_false_iff]
  intro hhigh
  rw [isLowSurrogate_eq_false hhigh] at h
  cases h

theorem not_unpaired_nil : ¬ Unpaired [] := by
  rintro ⟨before, u, after, h, -⟩
  simp at h

theorem unpaired_of_high {u : Nat} {rest : List Nat} (hu : isHighSurrogate u = true)
    (hrest : rest.head?.any isLowSurrogate = false) : Unpaired (u :: rest) :=
  ⟨[], u, rest, rfl, .inl ⟨hu, hrest⟩⟩

theorem unpaired_of_low {u : Nat} {rest : List Nat} (hu : isLowSurrogate u = true) :
    Unpaired (u :: rest) :=
  ⟨[], u, rest, rfl, .inr ⟨hu, rfl⟩⟩

/-- A unit that is no high surrogate is nobody's partner in what follows it. -/
theorem any_getLast?_cons {u : Nat} (hu : isHighSurrogate u = false) (before : List Nat) :
    (u :: before).getLast?.any isHighSurrogate = before.getLast?.any isHighSurrogate := by
  rw [List.getLast?_cons]
  cases before.getLast? <;> simp [hu]

theorem Unpaired.cons {u : Nat} {rest : List Nat} (hu : isHighSurrogate u = false)
    (h : Unpaired rest) : Unpaired (u :: rest) := by
  obtain ⟨before, v, after, rfl, hv⟩ := h
  exact ⟨u :: before, v, after, rfl, by rwa [any_getLast?_cons hu]⟩

theorem unpaired_single_iff {u : Nat} {rest : List Nat} (hhigh : isHighSurrogate u = false)
    (hlow : isLowSurrogate u = false) : Unpaired (u :: rest) ↔ Unpaired rest := by
  refine ⟨?_, .cons hhigh⟩
  rintro ⟨before, v, after, hsplit, hv⟩
  cases before with
  | nil =>
    obtain ⟨rfl, -⟩ := List.cons.inj hsplit
    rcases hv with ⟨hv, -⟩ | ⟨hv, -⟩
    · rw [hhigh] at hv
      cases hv
    · rw [hlow] at hv
      cases hv
  | cons w before =>
    obtain ⟨rfl, rfl⟩ := List.cons.inj hsplit
    rw [any_getLast?_cons hhigh] at hv
    exact ⟨before, v, after, rfl, hv⟩

theorem unpaired_pair_iff {u v : Nat} {rest : List Nat} (hu : isHighSurrogate u = true)
    (hv : isLowSurrogate v = true) : Unpaired (u :: v :: rest) ↔ Unpaired rest := by
  have hlow := isLowSurrogate_eq_false hu
  have hhigh := isHighSurrogate_eq_false hv
  constructor
  · rintro ⟨before, w, after, hsplit, hw⟩
    -- The unit without a partner is the first of the pair, the second, or behind both.
    rcases before with _ | ⟨x, _ | ⟨y, before⟩⟩
    · obtain ⟨rfl, rfl⟩ := List.cons.inj hsplit
      rcases hw with ⟨-, hw⟩ | ⟨hw, -⟩
      · simp [hv] at hw
      · rw [hlow] at hw
        cases hw
    · obtain ⟨rfl, hrest⟩ := List.cons.inj hsplit
      obtain ⟨rfl, rfl⟩ := List.cons.inj hrest
      rcases hw with ⟨hw, -⟩ | ⟨-, hw⟩
      · rw [hhigh] at hw
        cases hw
      · simp [hu] at hw
    · obtain ⟨rfl, hrest⟩ := List.cons.inj hsplit
      obtain ⟨rfl, rfl⟩ := List.cons.inj hrest
      rw [List.getLast?_cons_cons, any_getLast?_cons hhigh] at hw
      exact ⟨before, w, after, rfl, hw⟩
  · rintro ⟨before, w, after, rfl, hw⟩
    refine ⟨u :: v :: before, w, after, rfl, ?_⟩
    rwa [List.getLast?_cons_cons, any_getLast?_cons hhigh]

/-- Units are no text exactly if a surrogate has no partner. -/
theorem chars?_eq_none_iff {units : List Nat} : chars? units = none ↔ Unpaired units := by
  induction units using chars?.induct with
  | case1 => simp [chars?, not_unpaired_nil]
  | case2 u hhigh =>
    exact ⟨fun _ => unpaired_of_high hhigh rfl, fun _ => by simp [chars?, hhigh]⟩
  | case3 u hhigh v rest hlow ih =>
    rw [chars?, if_pos hhigh, if_pos hlow, Option.map_eq_none_iff, ih, unpaired_pair_iff hhigh hlow]
  | case4 u hhigh v rest hlow =>
    refine ⟨fun _ => unpaired_of_high hhigh ?_, fun _ => by simp [chars?, hhigh, hlow]⟩
    simpa using hlow
  | case5 u rest hhigh hlow =>
    refine ⟨fun _ => unpaired_of_low hlow, fun _ => ?_⟩
    unfold chars?
    rw [if_neg hhigh, if_pos hlow]
  | case6 u rest hhigh hlow ih =>
    unfold chars?
    rw [if_neg hhigh, if_neg hlow, Option.map_eq_none_iff, ih,
      unpaired_single_iff (Bool.eq_false_iff.mpr hhigh) (Bool.eq_false_iff.mpr hlow)]

/-- Bytes that are no text are odd in number, or are units with a surrogate that has no partner. -/
theorem not_encoded_iff {order : Order} {bytes : List UInt8} :
    (∀ s, bytes ≠ encode order s) ↔ bytes.length % 2 = 1 ∨
      ∃ units, (∀ u ∈ units, u < 0x10000) ∧ bytes = units.flatMap order.bytes ∧ Unpaired units := by
  rw [← decode?_eq_none_iff, decode?, Option.map_eq_none_iff]
  cases hunits : units? order bytes with
  | none =>
    rw [units?_eq_none_iff] at hunits
    exact ⟨fun _ => .inl hunits, fun _ => rfl⟩
  | some units =>
    have hodd : units? order bytes = none ↔ bytes.length % 2 = 1 := units?_eq_none_iff
    have heven : ¬ bytes.length % 2 = 1 := by
      rw [← hodd, hunits]
      exact Option.some_ne_none units
    obtain ⟨hbytes, hlt⟩ := flatMap_bytes_of_units? hunits
    rw [Option.bind_some, chars?_eq_none_iff, or_iff_right heven]
    constructor
    · exact fun h => ⟨units, hlt, hbytes.symm, h⟩
    · rintro ⟨units', hlt', rfl, h⟩
      rw [units?_flatMap_bytes order hlt'] at hunits
      rwa [← Option.some.inj hunits]

end ScopedXml.Text.Utf16
